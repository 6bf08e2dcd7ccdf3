import StpLang.Proofs.Grammar.Mends
import StpLang.Proofs.Layout.Expression
import StpLang.Proofs.Schema.Basic

/-!
The text of statements.

Writing a statement puts lines behind those of a sheet, and these hold the tokens
of the statement, laid out anew.

* `Sheet.chars` is the text on a sheet with a line end before every line.
* `Extended` says what a step of writing adds, `Prints` which tokens this holds, and
  `Adds` that these are given tokens, laid out anew.
* `Derives.oneLine` writes a statement without a block.
* `Derives.addsLines`: the lines of statements hold their tokens.
-/

namespace StpLang

open Source

/-! ### What is added to a sheet -/

/-- The text on a sheet, with a line end before every line. -/
def Source.Sheet.chars (s : Sheet) : List Char := s.lines.reverse.flatMap fun l => '\n' :: l.toList

/-- The text of a sheet has the line ends behind the lines. -/
lemma Source.Sheet.chars_output (s : Sheet) :
    '\n' :: s.output.toList = s.chars ++ ['\n'] := by
  have hlines (ls : List String) :
      '\n' :: (ls.map (· ++ "\n")).flatMap String.toList
        = (ls.flatMap fun l => '\n' :: l.toList) ++ ['\n'] := by
    induction ls with
    | nil => rfl
    | cons l ls ih =>
      rw [List.map_cons, List.flatMap_cons, List.flatMap_cons, List.append_assoc, ← ih]
      simp
  rw [Sheet.output, String.toList_join, hlines, Sheet.chars]

/-- The sheet with one more line. -/
def Source.Sheet.lined (s : Sheet) (text : String) : Sheet :=
  { s with lines := (Text.blanks (4 * s.indent) ++ text) :: s.lines }

/-- A step of writing adds the characters `d` to a sheet and keeps the indentation. -/
structure Extended (s s' : Sheet) (d : List Char) : Prop where
  indent : s'.indent = s.indent
  chars : s'.chars = s.chars ++ d

section

variable {s s' s'' : Sheet} {d e : List Char}

lemma Extended.refl (s : Sheet) : Extended s s [] := ⟨rfl, (List.append_nil _).symm⟩

lemma Extended.trans (h : Extended s s' d) (h' : Extended s' s'' e) : Extended s s'' (d ++ e) :=
  ⟨h'.indent.trans h.indent, by rw [h'.chars, h.chars, List.append_assoc]⟩

/-- A sheet to which something has been added holds a line. -/
lemma Extended.lines_ne_nil (h : Extended s s' d) (hd : d ≠ []) : s'.lines ≠ [] := by
  intro hnil
  have hchars := h.chars
  rw [Sheet.chars, hnil] at hchars
  exact hd (List.append_eq_nil_iff.mp hchars.symm).2

/-- A line. -/
lemma extended_line (s : Sheet) (text : String) :
    Extended s (s.lined text) ('\n' :: (List.replicate (4 * s.indent) ' ' ++ text.toList)) :=
  ⟨rfl, by simp [Sheet.chars, Sheet.lined, Text.blanks]⟩

/-- Text at the end of the latest line. -/
lemma extended_attach (hs : s.lines ≠ []) (text : String) :
    ∃ s', attach text s = .ok ((), s') ∧ Extended s s' (' ' :: text.toList) := by
  obtain ⟨l, ls, hl⟩ := List.exists_cons_of_ne_nil hs
  refine ⟨{ s with lines := (l ++ " " ++ text) :: ls }, ?_, rfl, ?_⟩
  · cases s
    subst hl
    rfl
  · simp [Sheet.chars, hl]

/-- The lines of a block, further in. -/
lemma Extended.outdented (h : Extended { s with indent := s.indent + 1 } s' d) :
    Extended s { s' with indent := s'.indent - 1 } d := by
  refine ⟨?_, h.chars⟩
  show s'.indent - 1 = s.indent
  rw [h.indent]
  rfl

/-- The closing brace behind the lines of a block. -/
lemma run_closing {body : Write Unit}
    (h : body { s with indent := s.indent + 1 } = .ok ((), s')) :
    closing body s
      = .ok ((), Sheet.lined { s' with indent := s'.indent - 1 } "\x7d") := by
  have hin : (modify fun s => { s with indent := s.indent + 1 } : Write Unit) s
      = .ok ((), { s with indent := s.indent + 1 }) := rfl
  have hout : (modify fun s => { s with indent := s.indent - 1 } : Write Unit) s'
      = .ok ((), { s' with indent := s'.indent - 1 }) := rfl
  rw [closing, run_then hin, run_then h, run_then hout]
  rfl

end

/-- What a step of writing adds to a sheet: the characters `d`, which hold the
tokens `xs` before anything that satisfies `K`. -/
structure Prints (n : Nat) (K : List Char → Prop) (xs : List Token) (s s' : Sheet)
    (d : List Char) : Prop extends Extended s s' d where
  spread : ∀ k, K k → Spread n xs d k

/-- What a step of writing adds to a sheet: the characters `d`, which hold the
tokens `us`, laid out anew, before anything that satisfies `K`. -/
structure Adds (n : Nat) (K : List Char → Prop) (us : List Token) (s s' : Sheet)
    (d : List Char) : Prop extends Extended s s' d where
  holds : ∃ xs, Relaid none us xs ∧ ∀ k, K k → Spread n xs d k

/-- A line ends. -/
def EndsLine (k : List Char) : Prop := k.head? = some '\n'

lemma EndsLine.endsToken {k : List Char} (h : EndsLine k) : Scan.EndsToken k := by
  cases k with
  | nil => cases h
  | cons x k =>
    cases h
    exact Scan.endsToken_cons rfl rfl

section

variable {n : Nat} {K K' : List Char → Prop} {us vs xs ys : List Token} {s s' s'' : Sheet}
  {d e w : List Char} {text header : String} {t opener closer : Token} {body : Write Unit}

namespace Prints

lemma trans (h : Prints n K xs s s' d) (h' : Prints n K' ys s' s'' e)
    (hK : ∀ k, K' k → K (e ++ k)) : Prints n K' (xs ++ ys) s s'' (d ++ e) :=
  ⟨h.toExtended.trans h'.toExtended,
    fun k hk => (h.spread _ (hK k hk)).append (h'.spread k hk)⟩

lemma mono (h : Prints n K xs s s' d) (hK : ∀ k, K' k → K k) : Prints n K' xs s s' d :=
  ⟨h.toExtended, fun k hk => h.spread k (hK k hk)⟩

lemma refl (s : Sheet) : Prints n K [] s s [] := ⟨.refl s, fun _ _ => .last .nil .nil⟩

end Prints

namespace Adds

lemma trans (h : Adds n K us s s' d) (h' : Adds n K' vs s' s'' e)
    (hK : ∀ k, K' k → K (e ++ k)) : Adds n K' (us ++ vs) s s'' (d ++ e) := by
  obtain ⟨xs, hxs, hd⟩ := h.holds
  obtain ⟨ys, hys, he⟩ := h'.holds
  have hwhole := Prints.trans ⟨h.toExtended, hd⟩ ⟨h'.toExtended, he⟩ hK
  exact ⟨hwhole.toExtended, xs ++ ys, hxs.append hys, hwhole.spread⟩

lemma mono (h : Adds n K us s s' d) (hK : ∀ k, K' k → K k) : Adds n K' us s s' d := by
  obtain ⟨xs, hxs, hd⟩ := h.holds
  exact ⟨h.toExtended, xs, hxs, fun k hk => hd k (hK k hk)⟩

/-- Separators before the tokens go. -/
lemma separators (h : Adds n K us s s' d) (hvs : ∀ v ∈ vs, v.kind.isSeparator = true) :
    Adds n K (vs ++ us) s s' d := by
  obtain ⟨xs, hxs, hd⟩ := h.holds
  refine ⟨h.toExtended, xs, ?_, hd⟩
  induction vs with
  | nil => exact hxs
  | cons v vs ih =>
    rw [List.forall_mem_cons] at hvs
    exact .separator hvs.1 (ih hvs.2)

lemma refl (s : Sheet) : Adds n K [] s s [] :=
  ⟨.refl s, [], .nil, fun _ _ => .last .nil .nil⟩

end Adds

/-! ### Lines -/

/-- A line holds the tokens that its text holds. -/
lemma prints_line (hne : text.toList ≠ []) (hb : Balanced xs)
    (h : ∀ k, K k → Written n xs text.toList k) (s : Sheet) :
    ∃ d, line text s = .ok ((), s.lined text)
      ∧ Prints n K (lineEndToken :: xs) s (s.lined text) ('\n' :: d) := by
  refine ⟨List.replicate (4 * s.indent) ' ' ++ text.toList, rfl, extended_line s text,
    fun k hk => ?_⟩
  have hwritten : Written n xs (List.replicate (4 * s.indent) ' ' ++ text.toList) k := by
    cases xs with
    | nil => exact absurd (h k hk).eq_nil hne
    | cons x xs => exact (h k hk).blanks _
  have hnone : Written n [] [] ('\n' :: (List.replicate (4 * s.indent) ' ' ++ text.toList ++ k)) :=
    .nil
  exact .line .nil hnone (.last hb hwritten)

/-- Text at the end of the latest line holds its tokens there. -/
lemma prints_attach (hne : text.toList ≠ []) (hb : Balanced xs)
    (h : ∀ k, K k → Written n xs text.toList k) (hs : s.lines ≠ []) :
    ∃ s', attach text s = .ok ((), s') ∧ Prints n K xs s s' (' ' :: text.toList) := by
  obtain ⟨s', hattach, hextended⟩ := extended_attach hs text
  refine ⟨s', hattach, hextended, fun k hk => .last hb ?_⟩
  cases xs with
  | nil => exact absurd (h k hk).eq_nil hne
  | cons x xs => exact .blank (h k hk)

/-- A line of text that holds tokens, laid out anew. -/
lemma adds_line (hne : text.toList ≠ [])
    (h : ∃ xs, Relaid none us xs ∧ ∀ k, K k → Written n xs text.toList k) (s : Sheet) :
    ∃ d, line text s = .ok ((), s.lined text) ∧ Adds n K us s (s.lined text) ('\n' :: d) := by
  obtain ⟨xs, hxs, hw⟩ := h
  obtain ⟨d, hline, hprints⟩ := prints_line hne hxs.balanced hw s
  exact ⟨d, hline, hprints.toExtended, _, .lineEnd rfl hxs, hprints.spread⟩

/-- A line of text that holds tokens of one statement. -/
lemma adds_puts (h : Puts n none us text.toList) (hne : text.toList ≠ []) (s : Sheet) :
    ∃ d, line text s = .ok ((), s.lined text)
      ∧ Adds n Scan.EndsToken us s (s.lined text) ('\n' :: d) := adds_line hne h s

/-- Text at the end of the latest line. -/
lemma adds_attach (h : Puts n none us text.toList) (hne : text.toList ≠ [])
    (hs : s.lines ≠ []) :
    ∃ s', attach text s = .ok ((), s')
      ∧ Adds n Scan.EndsToken us s s' (' ' :: text.toList) := by
  obtain ⟨xs, hxs, hw⟩ := h
  obtain ⟨s', hattach, hprints⟩ := prints_attach hne hxs.balanced hw hs
  exact ⟨s', hattach, hprints.toExtended, xs, hxs, hprints.spread⟩

/-! ### Blocks -/

/-- Writing `body` adds lines that hold the tokens `us`, or nothing. -/
def AddsLines (n : Nat) (body : Write Unit) (us : List Token) : Prop :=
  ∀ s, ∃ s' d, body s = .ok ((), s') ∧ Adds n EndsLine us s s' d ∧ (d = [] ∨ EndsLine d)

/-- Writing the statements of a block and its closing brace adds lines that hold
the tokens `us`. -/
def Closes (n : Nat) (body : Write Unit) (us : List Token) : Prop :=
  ∀ s, ∃ s' d, closing body s = .ok ((), s') ∧ Adds n Scan.EndsToken us s s' ('\n' :: d)

/-- A token with one spelling. -/
lemma puts_one {kind : TokenKind} {word : String} {i : Option TokenKind} (ht : t.Spelled n)
    (hk : t.kind = kind) (hword : kind.spelling? = some word)
    (hi : kind.isInner = true ∧ kind.endsLine = false) : Puts n i [t] word.toList := by
  subst hk
  rw [← ht.spelling hword]
  refine .token ht hi.1 (fun hs => ?_) hi.2
  rw [hs] at hword
  cases hword

/-- A token with one spelling, a blank and a text. -/
lemma Puts.headed {kind : TokenKind} {word : String} {i : Option TokenKind} (h : Puts n i us w)
    (hw : w ≠ []) (ht : t.Spelled n) (hk : t.kind = kind) (hword : kind.spelling? = some word)
    (hi : kind.isInner = true ∧ kind.endsLine = false) :
    Puts n i (t :: us) (word.toList ++ ' ' :: w) :=
  (puts_one ht hk hword hi).stop (h.blank hw) (stops_cons rfl rfl)

/-- The closing brace on a line of its own behind the lines of a block. -/
lemma Prints.closed (hbody : body { s with indent := s.indent + 1 } = .ok ((), s'))
    (h : Prints n EndsLine xs { s with indent := s.indent + 1 } s' d) (hd : d = [] ∨ EndsLine d)
    (hc : closer.Spelled n) (hk : closer.kind = .rightBrace) :
    ∃ s'' e, closing body s = .ok ((), s'')
      ∧ Prints n Scan.EndsToken (xs ++ [lineEndToken, closer]) s s'' ('\n' :: e) := by
  have hbrace : ∀ k, Scan.EndsToken k → Written n [closer] "\x7d".toList k := by
    intro k hend
    have hmark := readsAs_mark hc hk rfl hend.operator
    rw [hc.spelling (by rw [hk]; rfl)] at hmark
    exact .one hmark
  obtain ⟨e, -, hlast⟩ := prints_line (by decide) (.one hk rfl .nil) hbrace
    { s' with indent := s'.indent - 1 }
  have hinner : Prints n EndsLine xs s { s' with indent := s'.indent - 1 } d :=
    ⟨h.outdented, h.spread⟩
  have hwhole := hinner.trans hlast fun k _ => rfl
  rcases hd with rfl | hd
  · exact ⟨_, _, run_closing hbody, hwhole⟩
  · cases d with
    | nil => cases hd
    | cons x d =>
      cases hd
      exact ⟨_, _, run_closing hbody, hwhole⟩

lemma AddsLines.closes (h : AddsLines n body us) (hc : closer.Spelled n)
    (hk : closer.kind = .rightBrace) : Closes n body (us ++ [closer]) := by
  intro s
  obtain ⟨s', d, hbody, hadds, hd⟩ := h { s with indent := s.indent + 1 }
  obtain ⟨xs, hxs, hspread⟩ := hadds.holds
  obtain ⟨s'', e, hclosing, hprints⟩ := Prints.closed hbody ⟨hadds.toExtended, hspread⟩ hd hc hk
  have hlast : Relaid none [closer] [lineEndToken, closer] := .lineEnd rfl (.one hk rfl .nil)
  exact ⟨s'', e, hclosing, hprints.toExtended, _, hxs.append hlast, hprints.spread⟩

/-- The text of a header and its opening brace. -/
lemma puts_header (h : Puts n none us header.toList) (hne : header.toList ≠ [])
    (ho : opener.Spelled n) (hk : opener.kind = .leftBrace) :
    Puts n none (us ++ [opener]) (header ++ " \x7b").toList
      ∧ (header ++ " \x7b").toList ≠ [] := by
  have hopen : Puts n none [opener] (' ' :: "\x7b".toList) :=
    (puts_one ho hk rfl (by decide)).blank (by decide)
  rw [String.toList_append]
  exact ⟨h.stop hopen (stops_cons rfl rfl), by simp [hne]⟩

/-- A block below its header. -/
lemma Closes.block (h : Closes n body vs)
    (hheader : Puts n none us header.toList) (hne : header.toList ≠ []) (ho : opener.Spelled n)
    (hk : opener.kind = .leftBrace) (s : Sheet) :
    ∃ s' d, Source.block header body s = .ok ((), s')
      ∧ Adds n Scan.EndsToken (us ++ opener :: vs) s s' ('\n' :: d) := by
  obtain ⟨hputs, hne⟩ := puts_header hheader hne ho hk
  obtain ⟨d, hline, hfirst⟩ := adds_puts hputs hne s
  obtain ⟨s', e, hbody, hmore⟩ := h (s.lined (header ++ " \x7b"))
  have hwhole := hfirst.trans hmore fun k _ => Scan.endsToken_cons rfl rfl
  rw [List.append_assoc] at hwhole
  refine ⟨s', _, ?_, hwhole⟩
  rw [Source.block, run_then hline, hbody]

/-- A block whose header stands on the line of the brace before it. -/
lemma Closes.attached (h : Closes n body vs)
    (hheader : Puts n none us header.toList) (hne : header.toList ≠ []) (ho : opener.Spelled n)
    (hk : opener.kind = .leftBrace) (hs : s.lines ≠ []) :
    ∃ s' d, Source.attached header body s = .ok ((), s')
      ∧ Adds n Scan.EndsToken (us ++ opener :: vs) s s' (' ' :: d) := by
  obtain ⟨hputs, hne⟩ := puts_header hheader hne ho hk
  obtain ⟨s', hattach, hfirst⟩ := adds_attach hputs hne hs
  obtain ⟨s'', e, hbody, hmore⟩ := h s'
  have hwhole := hfirst.trans hmore fun k _ => Scan.endsToken_cons rfl rfl
  rw [List.append_assoc] at hwhole
  refine ⟨s'', _, ?_, hwhole⟩
  rw [Source.attached, run_then hattach, hbody]

/-- The semicolon that may end a statement. -/
lemma Mark.puts {ms k : List Token} {mark : Option String} (h : Mark ms k mark)
    (hs : ∀ t ∈ ms, t.Spelled n) :
    Puts n .none ms (mark.getD "").toList
      ∧ ∀ k, Scan.EndsToken k → Scan.EndsToken ((mark.getD "").toList ++ k) := by
  cases h with
  | none => exact ⟨.nil, fun _ hk => hk⟩
  | @semicolon t _ hk =>
    rw [List.forall_mem_singleton] at hs
    rw [Option.getD_some, hs.spelling (by rw [hk]; rfl)]
    exact ⟨puts_one hs hk rfl (by decide), fun k _ => Scan.endsToken_cons rfl rfl⟩

/-! ### Headers -/

/-- A word before an expression. -/
lemma Rewritten.headed {node : Node} {kind : TokenKind} {word : String}
    (h : Rewritten n us node) (ht : t.Spelled n) (hk : t.kind = kind)
    (hword : kind.spelling? = some word) (hi : kind.isInner = true ∧ kind.endsLine = false) :
    ∃ text, expression node = .ok text
      ∧ Puts n none (t :: us) (word.toList ++ ' ' :: text.toList) := by
  obtain ⟨text, htext, hexpr⟩ := h
  exact ⟨text, htext, (hexpr none).puts.headed (hexpr none).opens.ne_nil ht hk hword hi⟩

/-- The header of a `for` loop. -/
lemma puts_forHeader {node : Node} {x i : Token} (h : Rewritten n us node)
    (hs : ∀ u ∈ [t, x, i], u.Spelled n) (ht : t.kind = .kwFor) (hx : x.kind = .identifier)
    (hi : i.kind = .kwIn) :
    ∃ text, expression node = .ok text
      ∧ Puts n none (t :: x :: i :: us) ("for " ++ x.value ++ " in " ++ text).toList := by
  simp only [List.forall_mem_cons] at hs
  obtain ⟨hts, hxs, his, -⟩ := hs
  obtain ⟨text, htext, hright⟩ := h.headed his hi rfl (by decide)
  have hname : Emits n none _ _ := emits_name hxs hx
  have hinner := hname.puts.stop (hright.blank (by simp)) (stops_cons rfl rfl)
  exact ⟨text, htext, by simpa using hinner.headed (by simp) hts ht rfl (by decide)⟩

/-- A word and an expression. -/
lemma Derives.headed {a : Nat} {k : List Token} {e : Node} {kind : TokenKind} {word : String}
    (h : Derives a (.expression 1 false) us k [e]) (hs : ∀ u ∈ us, u.Spelled n)
    (hts : t.Spelled n) (ht : t.kind = kind) (hi : kind.isInner = true ∧ kind.endsLine = false)
    (heading : String) (hword : kind.spelling? = some word ∧ heading = word ++ " ") :
    ∃ text, Source.expression e = .ok text ∧ Puts n none (t :: us) (heading ++ text).toList := by
  obtain ⟨text, htext, hputs⟩ :=
    Rewritten.headed (h.relays hs _ List.mem_cons_self) hts ht hword.1 hi
  exact ⟨text, htext, by simpa [hword.2] using hputs⟩

/-- The header of a function. -/
lemma puts_functionHeader {a : Nat} {x o c : Token} {ls k : List Token} {xs ys : List Node}
    (hs : ∀ u ∈ t :: x :: o :: (ls ++ (us ++ (vs ++ [c]))), u.Spelled n) (ht : t.kind = .kwFn)
    (hx : x.kind = .identifier) (ho : o.kind = .leftParen)
    (hl : LeadingComma ls (us ++ (vs ++ c :: k)))
    (hp : Derives a (.arguments .parameter) us (vs ++ c :: k) xs)
    (hy : Derives a (.arguments .keyword) vs (c :: k) ys) (hc : c.kind = .rightParen) :
    ∃ ss rs, texts xs = .ok ss ∧ texts ys = .ok rs
      ∧ Puts n none (t :: x :: o :: (ls ++ (us ++ (vs ++ [c]))))
        ("fn " ++ x.value ++ "(" ++ Text.join ", " (ss ++ rs) ++ ")").toList := by
  simp only [List.forall_mem_cons, List.forall_mem_append] at hs
  obtain ⟨hts, hxs, hopen, hls, hus, hvs, hclose, -⟩ := hs
  obtain ⟨ss, rs, hss, hrs, hlist⟩ := lists_of_relays hc hy (hp.relays hus) (hy.relays hvs)
  rw [← List.append_assoc] at hl
  have hparens := (hlist (some .leftParen)).parens (i := none) hl hopen hclose ho hc
  have hname : Emits n none _ _ := emits_name hxs hx
  have hstops : Stops ("(" ++ Text.join ", " (ss ++ rs) ++ ")").toList := by
    rw [String.toList_append, String.toList_append, List.append_assoc]
    exact stops_cons rfl rfl
  have hinner := hname.puts.stop hparens hstops
  exact ⟨ss, rs, hss, hrs, by simpa using hinner.headed (by simp) hts ht rfl (by decide)⟩

/-! ### Simple statements -/

/-- A statement without a block is written on one line, which holds its tokens. -/
lemma Derives.oneLine {a loops : Nat} {k : List Token} {node : Node}
    (h : Derives a (.statement loops) us k [node]) (hs : ∀ u ∈ us, u.Spelled n)
    (hopen : (headKind us).opensBlock = false) (hcomment : headKind us ≠ .comment) :
    ∃ text, (∀ s, statement node s = line text s) ∧ text.toList ≠ []
      ∧ Puts n none us text.toList := by
  cases h with
  | comment ht => exact absurd ht hcomment
  | exit ht =>
    rw [List.forall_mem_singleton] at hs
    exact ⟨"exit", run_exit (has_leaf rfl), by decide, puts_one hs ht rfl (by decide)⟩
  | loopControl ht =>
    rw [List.forall_mem_singleton] at hs
    rcases ht with ht | ht
    · refine ⟨"break", ?_, by decide, puts_one hs ht rfl (by decide)⟩
      rw [hs.spelling (by rw [ht]; rfl)]
      exact run_break (has_leaf rfl)
    · refine ⟨"cont", ?_, by decide, puts_one hs ht rfl (by decide)⟩
      rw [hs.spelling (by rw [ht]; rfl)]
      exact run_cont (has_leaf rfl)
  | symbolDeclaration ht hx =>
    simp only [List.forall_mem_cons] at hs
    have hname : Emits n none _ _ := emits_name hs.2.1 hx
    have hputs := hname.puts.headed hname.opens.ne_nil hs.1 ht rfl (by decide)
    exact ⟨_, run_symbolDeclaration (has_spanning rfl) (expression_identifier _), by simp,
      by simpa using hputs⟩
  | importStatement ht h =>
    rw [List.forall_mem_cons] at hs
    obtain ⟨text, htext, hputs⟩ :=
      Rewritten.headed (h.relays hs.2 _ List.mem_cons_self) hs.1 ht rfl (by decide)
    exact ⟨_, run_import (has_spanning rfl) htext, by simp, by simpa using hputs⟩
  | returnStatement ht h =>
    rw [List.forall_mem_cons] at hs
    obtain ⟨text, htext, hputs⟩ :=
      Rewritten.headed (h.relays hs.2 _ List.mem_cons_self) hs.1 ht rfl (by decide)
    exact ⟨_, run_return (has_spanning rfl) htext, by simp, by simpa using hputs⟩
  | assignment hx he h hm =>
    simp only [List.forall_mem_cons, List.forall_mem_append] at hs
    obtain ⟨hxs, hes, hts, hms⟩ := hs
    obtain ⟨text, htext, hright⟩ :=
      Rewritten.headed (h.relays hts _ List.mem_cons_self) hes he rfl (by decide)
    obtain ⟨hmark, hend⟩ := hm.puts hms
    have hname : Emits n none _ _ := emits_name hxs hx
    have hputs := (hname.puts.stop (hright.blank (by simp)) (stops_cons rfl rfl)).append hmark hend
    exact ⟨_, run_assignment (has_spanning rfl) (expression_identifier _) htext, by simp,
      by simpa using hputs⟩
  | expressionStatement h _ hm =>
    rw [List.forall_mem_append] at hs
    obtain ⟨text, htext, hexpr⟩ := h.relays hs.1 _ List.mem_cons_self
    obtain ⟨hmark, hend⟩ := hm.puts hs.2
    have hputs := (hexpr none).puts.append hmark hend
    have hne := (hexpr none).opens.ne_nil
    exact ⟨_, run_expressionStatement (has_spanning rfl) htext, by simp [hne],
      by simpa using hputs⟩
  | ifStatement ht | whileLoop ht | forLoop ht | functionDefinition ht =>
    rw [headKind_cons, ht] at hopen
    cases hopen

/-! ### Phrases of statements -/

/-- The lines of the nodes of a phrase hold its tokens; clauses go on from the
latest line. -/
def Phrase.AddsLines (n : Nat) : Phrase → (us : List Token) → List Node → Prop
  | .statement _, us, ns => ∀ node ∈ ns, ∀ s, ∃ s' d, Source.statement node s = .ok ((), s')
    ∧ Adds n EndsLine us s s' ('\n' :: d)
  | .statements _ _, us, ns => StpLang.AddsLines n (Source.statements ns) us
  | .block _, us, ns => ∀ node ∈ ns, ∃ opener vs, us = opener :: vs ∧ opener.Spelled n
    ∧ opener.kind = .leftBrace ∧ Closes n (Source.statements node.children) vs
  | .clauses _ _, us, ns => ∀ s : Sheet, s.lines ≠ [] → ∃ s' d, Source.clauses 0 ns s = .ok ((), s')
    ∧ Adds n Scan.EndsToken us s s' d ∧ (d = [] ∨ d.head? = some ' ')
  | _, _, _ => True

/-- A statement without a block, which is no comment. -/
lemma Derives.addsLine {a loops : Nat} {k : List Token} {node : Node}
    (h : Derives a (.statement loops) us k [node]) (hs : ∀ u ∈ us, u.Spelled n)
    (hopen : (headKind us).opensBlock = false) (hcomment : headKind us ≠ .comment) :
    (Phrase.statement loops).AddsLines n us [node] := by
  obtain ⟨text, hrun, hne, hputs⟩ := h.oneLine hs hopen hcomment
  refine List.forall_mem_singleton.mpr fun s => ?_
  obtain ⟨d, hline, hadds⟩ := adds_puts hputs hne s
  exact ⟨_, d, (hrun s).trans hline, hadds.mono fun _ hk => hk.endsToken⟩

/-- A statement of a header and a block. -/
lemma Closes.statement {node : Node} {body : Write Unit}
    (hrun : ∀ s, Source.statement node s = Source.block header body s) (h : Closes n body vs)
    (hheader : Puts n none us header.toList) (hne : header.toList ≠ []) (ho : opener.Spelled n)
    (hk : opener.kind = .leftBrace) (s : Sheet) :
    ∃ s' d, Source.statement node s = .ok ((), s')
      ∧ Adds n EndsLine (us ++ opener :: vs) s s' ('\n' :: d) := by
  obtain ⟨s', d, hblock, hadds⟩ := h.block hheader hne ho hk s
  exact ⟨s', d, (hrun s).trans hblock, hadds.mono fun _ hk => hk.endsToken⟩

/-- Nothing, or a blank and more, ends a token. -/
lemma endsToken_clauses {k : List Char} (hd : d = [] ∨ d.head? = some ' ')
    (hk : Scan.EndsToken k) : Scan.EndsToken (d ++ k) := by
  rcases hd with rfl | hd
  · exact hk
  · cases d with
    | nil => cases hd
    | cons x d =>
      cases hd
      exact Scan.endsToken_cons rfl rfl

/-- Writing clauses goes on on the line of a closing brace and adds the tokens `us`. -/
def AddsClauses (n : Nat) (ns : List Node) (us : List Token) : Prop :=
  ∀ s : Sheet, s.lines ≠ [] → ∃ s' d, Source.clauses 0 ns s = .ok ((), s')
    ∧ Adds n Scan.EndsToken us s s' d ∧ (d = [] ∨ d.head? = some ' ')

/-- A clause goes on behind a closing brace. -/
lemma Closes.clause {node : Node} {ns : List Node} {ls ws : List Token} {body : Write Unit}
    (h : Closes n body vs)
    (hrun : ∀ s, Source.clauses 0 (node :: ns) s
      = (Source.attached header body >>= fun _ => Source.clauses 0 ns) s)
    (hheader : Puts n none us header.toList) (hne : header.toList ≠ []) (ho : opener.Spelled n)
    (hk : opener.kind = .leftBrace) (hl : ∀ l ∈ ls, l.kind = .newline)
    (hmore : AddsClauses n ns ws) (hxs : xs = ls ++ (us ++ opener :: vs ++ ws)) :
    AddsClauses n (node :: ns) xs := by
  subst hxs
  intro s hs
  obtain ⟨s', d, hblock, hfirst⟩ := h.attached hheader hne ho hk hs
  obtain ⟨s'', e, hclauses, hrest, he⟩ := hmore s' (hfirst.lines_ne_nil (by simp))
  have hlines : ∀ l ∈ ls, l.kind.isSeparator = true := fun l h => by rw [hl l h]; rfl
  have hwhole := (hfirst.trans hrest fun k hk => endsToken_clauses he hk).separators hlines
  exact ⟨s'', ' ' :: d ++ e, by rw [hrun, run_then hblock, hclauses], hwhole, .inr rfl⟩

/-- The lines of statements hold the tokens of the statements, laid out anew. -/
theorem Derives.addsLines {a : Nat} {p : Phrase} {k : List Token} {ns : List Node}
    (h : Derives a p us k ns) (hs : ∀ u ∈ us, u.Spelled n) : p.AddsLines n us ns := by
  induction h with
  | @comment _ _ t _ ht =>
    rw [List.forall_mem_singleton] at hs
    refine List.forall_mem_singleton.mpr fun s => ?_
    have hwritten : ∀ k, EndsLine k → Written n [t] t.value.toList k :=
      fun k hk => .one (readsAs_comment hs ht hk)
    have hne : t.value.toList ≠ [] := by
      obtain ⟨x, w, hx, -⟩ := (readsAs_comment (k := ['\n']) hs ht rfl).first
      rw [hx]
      simp
    obtain ⟨d, hline, hadds⟩ := adds_line hne ⟨[t], .one ht rfl .nil, hwritten⟩ s
    exact ⟨_, d, (run_comment (has_leaf rfl) s).trans hline, hadds⟩
  | exit ht =>
    exact (Derives.exit (a := 0) (k := []) ht).addsLine hs
      (by rw [headKind_cons, ht]; rfl) (by rw [headKind_cons, ht]; decide)
  | @loopControl _ _ t _ ht hl =>
    have hk : t.kind.opensBlock = false ∧ t.kind ≠ .comment := by
      rcases ht with ht | ht <;> rw [ht] <;> decide
    exact (Derives.loopControl (a := 0) (k := []) ht hl).addsLine hs hk.1 hk.2
  | symbolDeclaration ht hx =>
    exact (Derives.symbolDeclaration (a := 0) (k := []) ht hx).addsLine hs
      (by rw [headKind_cons, ht]; rfl) (by rw [headKind_cons, ht]; decide)
  | importStatement ht h =>
    exact (Derives.importStatement ht h).addsLine hs
      (by rw [headKind_cons, ht]; rfl) (by rw [headKind_cons, ht]; decide)
  | returnStatement ht h =>
    exact (Derives.returnStatement ht h).addsLine hs
      (by rw [headKind_cons, ht]; rfl) (by rw [headKind_cons, ht]; decide)
  | assignment hx he h hm =>
    exact (Derives.assignment hx he h hm).addsLine hs
      (by rw [headKind_cons, hx]; rfl) (by rw [headKind_cons, hx]; decide)
  | expressionStatement h hb hm =>
    obtain ⟨t, ts, rfl, ht⟩ := h.first rfl
    have hk : t.kind.opensBlock = false ∧ t.kind ≠ .comment := by
      generalize t.kind = kind at ht
      cases kind <;> first | exact ⟨rfl, by decide⟩ | cases ht
    exact (Derives.expressionStatement h hb hm).addsLine hs hk.1 hk.2
  | ifStatement ht h _ _ _ ihb ihc =>
    simp only [List.forall_mem_cons, List.forall_mem_append] at hs
    obtain ⟨hts, hcond, hbody, hclauses⟩ := hs
    obtain ⟨text, htext, hheader⟩ := h.headed hcond hts ht (by decide) "if " ⟨rfl, rfl⟩
    obtain ⟨opener, vs, rfl, ho, hok, hcloses⟩ := ihb hbody _ List.mem_cons_self
    refine List.forall_mem_singleton.mpr fun s => ?_
    obtain ⟨s', d, hblock, hfirst⟩ := hcloses.block hheader (by simp) ho hok s
    obtain ⟨s'', e, hrun, hmore, he⟩ := ihc hclauses s' (hfirst.lines_ne_nil (by simp))
    have hwhole := hfirst.trans hmore fun k hk => endsToken_clauses he hk
    refine ⟨s'', d ++ e, ?_, ?_⟩
    · refine (run_ifStatement (has_spanning rfl) htext s).trans ?_
      rw [run_then hblock, hrun]
    · have hline : Adds n EndsLine _ s s'' _ := hwhole.mono fun _ hk => hk.endsToken
      simpa using hline
  | whileLoop ht h _ _ ihb =>
    simp only [List.forall_mem_cons, List.forall_mem_append] at hs
    obtain ⟨hts, hcond, hbody⟩ := hs
    obtain ⟨text, htext, hheader⟩ := h.headed hcond hts ht (by decide) "while " ⟨rfl, rfl⟩
    obtain ⟨opener, vs, rfl, ho, hok, hcloses⟩ := ihb hbody _ List.mem_cons_self
    exact List.forall_mem_singleton.mpr
      (hcloses.statement (run_whileLoop (has_spanning rfl) htext) hheader (by simp) ho hok)
  | @forLoop _ _ t x i ts us _ _ _ ht hx hi h _ _ ihb =>
    rw [show t :: x :: i :: (ts ++ us) = [t, x, i] ++ (ts ++ us) from rfl,
      List.forall_mem_append, List.forall_mem_append] at hs
    obtain ⟨hwords, hexpr, hbody⟩ := hs
    obtain ⟨text, htext, hheader⟩ :=
      puts_forHeader (h.relays hexpr _ List.mem_cons_self) hwords ht hx hi
    obtain ⟨opener, vs, rfl, ho, hok, hcloses⟩ := ihb hbody _ List.mem_cons_self
    exact List.forall_mem_singleton.mpr
      (hcloses.statement (run_forLoop (has_spanning rfl) (expression_identifier _) htext)
        hheader (by simp) ho hok)
  | @functionDefinition _ _ t x o c ls us vs ws _ _ _ _ ht hx ho hl hp hy hc _ _ _ ihb =>
    rw [show t :: x :: o :: (ls ++ (us ++ (vs ++ c :: ws)))
      = (t :: x :: o :: (ls ++ (us ++ (vs ++ [c])))) ++ ws by simp] at hs ⊢
    rw [List.forall_mem_append] at hs
    obtain ⟨brace, ws, rfl, hbs, hbk, hcloses⟩ := ihb hs.2 _ List.mem_cons_self
    obtain ⟨ss, rs, hss, hrs, hheader⟩ := puts_functionHeader hs.1 ht hx ho hl hp hy hc
    exact List.forall_mem_singleton.mpr (hcloses.statement
      (run_functionDefinition (has_spanning rfl) (expression_identifier _) hss hrs)
      hheader (by simp) hbs hbk)
  | block ho _ hc ih =>
    simp only [List.forall_mem_cons, List.forall_mem_append] at hs
    exact List.forall_mem_singleton.mpr
      ⟨_, _, rfl, hs.1, ho, (ih hs.2.1).closes hs.2.2.1 hc⟩
  | clausesEnd => exact fun s _ => ⟨s, [], run_clauses_nil s, .refl s, .inl rfl⟩
  | clausesElseif hl ht h _ _ _ ihb ihc =>
    simp only [List.forall_mem_cons, List.forall_mem_append] at hs
    obtain ⟨-, hts, hcond, hbody, hclauses⟩ := hs
    obtain ⟨text, htext, hheader⟩ := h.headed hcond hts ht (by decide) "elseif " ⟨rfl, rfl⟩
    obtain ⟨opener, vs, rfl, ho, hok, hcloses⟩ := ihb hbody _ List.mem_cons_self
    exact hcloses.clause (run_elseif (has_spanning rfl) htext) hheader (by simp) ho hok hl
      (ihc hclauses) (by simp)
  | clausesElse hl ht _ _ ihb ihc =>
    simp only [List.forall_mem_cons, List.forall_mem_append] at hs
    obtain ⟨-, hts, hbody, hclauses⟩ := hs
    obtain ⟨opener, vs, rfl, ho, hok, hcloses⟩ := ihb hbody _ List.mem_cons_self
    have hheader : Puts n none _ "else".toList := puts_one hts ht rfl (by decide)
    exact hcloses.clause (run_else (has_spanning rfl)) hheader (by decide) ho hok hl
      (ihc hclauses) (by simp)
  | statementsEnd => exact fun s => ⟨s, [], run_statements_nil s, .refl s, .inl rfl⟩
  | statementsSeparator ht _ ih =>
    rw [List.forall_mem_cons] at hs
    intro s
    obtain ⟨s', d, hrun, hadds, hd⟩ := ih hs.2 s
    exact ⟨s', d, hrun, hadds.separators (List.forall_mem_singleton.mpr ht), hd⟩
  | statementsMore _ _ ih ihs =>
    rw [List.forall_mem_append] at hs
    intro s
    obtain ⟨s', d, hrun, hfirst⟩ := ih hs.1 _ List.mem_cons_self s
    obtain ⟨s'', e, hrun', hmore, he⟩ := ihs hs.2 s'
    refine ⟨s'', _, (run_statements_cons hrun).trans hrun', hfirst.trans hmore fun k hk => ?_,
      .inr rfl⟩
    rcases he with rfl | he
    · exact hk
    · cases e with
      | nil => cases he
      | cons x e => exact he
  | _ => trivial

end

end StpLang
