import Mathlib.Data.List.Forall2
import StpLang.Proofs.Layout.Statement
import StpLang.Proofs.RoundTrip.Word

/-!
The lines of statements.

The text of a tree has a line for each statement and for each error in the place of
one, in the order of the tree. The other lines begin with the brace that closes a block.

* `Node.entries` are the statements and errors of a subtree, `Token.entryLines` the lines
  on which statements begin.
* `Node.ShownOn` says what stands on the line of a statement, and `Charts` that some
  lines are those of given statements.
* `Node.Enters` and its kin say that what is written has the lines of statements.
* `EntersLines.closing` writes a block, `EntersBlock.statement` one below its header and
  `EntersBlock.choice` one with clauses behind it.
-/

namespace StpLang

open Source

/-! ### Statements of a tree -/

namespace Node

/-- The statements of a subtree and the errors that stand in place of one, in the order
of the text. -/
def entries (n : Node) : List Node := n.walk.filter (·.kind.isEntry)

/-- The comment that stands for an error. -/
def remark (n : Node) : String := "# error: " ++ valueText n.value

variable {n c : Node}

lemma entries_eq (n : Node) :
    n.entries = (if n.kind.isEntry then [n] else []) ++ n.children.flatMap entries := by
  have hbelow : n.children.flatMap (fun m => m.walk.filter (·.kind.isEntry))
      = n.children.flatMap entries := rfl
  rw [entries, walk_eq, List.filter_cons, List.filter_flatMap, hbelow]
  split <;> simp

lemma mem_entries : c ∈ n.entries ↔ c ∈ n.walk ∧ c.kind.isEntry = true := List.mem_filter

/-- No statement is a part of a node that holds none. -/
lemma Formed.entries_below (h : n.Formed) (hk : n.kind.isInert = true) :
    n.children.flatMap Node.entries = [] := by
  induction n using induction_children with
  | h n ih =>
    obtain ⟨hobeys, hchildren⟩ := formed_iff.mp h
    refine List.flatMap_eq_nil_iff.mpr fun c hc => ?_
    rw [entries_eq, ih c hc (hchildren c hc) (hobeys.isInert_child hk hc), if_neg,
      List.append_nil]
    intro hentry
    rcases hobeys.parent_of_entry hc hentry with hp | hp <;> rw [hp] at hk <;> cases hk

lemma Formed.entries_of_isInert (h : n.Formed) (hk : n.kind.isInert = true)
    (he : n.kind.isEntry = false) : n.entries = [] := by
  rw [entries_eq, h.entries_below hk, he]
  rfl

lemma Formed.entries_expression (h : n.Formed) (hk : Node.of Kind.isExpression n = true) :
    n.entries = [] := by
  rw [Node.of] at hk
  have hclass : n.kind.isInert = true ∧ n.kind.isEntry = false := by
    generalize n.kind = k at hk
    cases k <;> first | exact ⟨rfl, rfl⟩ | cases hk
  exact h.entries_of_isInert hclass.1 hclass.2

end Node

/-- The word with which the statements of a kind begin. -/
def Kind.keyword? : Kind → Option TokenKind
  | .symbolDeclaration => some .kwSym
  | .ifStatement => some .kwIf
  | .whileLoop => some .kwWhile
  | .forLoop => some .kwFor
  | .functionDefinition => some .kwFn
  | .importStatement => some .kwImport
  | .returnStatement => some .kwRet
  | .breakStatement => some .kwBreak
  | .contStatement => some .kwCont
  | .exitStatement => some .kwExit
  | _ => none

lemma Kind.keyword?_spec {kind : Kind} {word : TokenKind} (h : kind.keyword? = some word) :
    kind ≠ .comment ∧ kind ≠ .error ∧ word.isSeparator = false ∧ word ≠ .rightBrace
      ∧ word ≠ .eof := by
  cases kind <;> cases h <;> decide

/-! ### Lines of tokens -/

/-- The line belongs to a statement: it is not empty, does not begin with a closing
brace, and is not the end of the text. -/
def Token.opensEntry (line : List Token) : Bool :=
  line.head?.any fun t => t.kind != .rightBrace && t.kind != .eof

/-- The lines on which statements begin. -/
def Token.entryLines (ts : List Token) : List (List Token) :=
  (ts.splitOnP (·.kind == .newline)).filter opensEntry

/-- The tokens on the line of a statement. An error has a single comment there, and so
has a comment. Other statements have none, and begin with the word for their kind. -/
def Node.ShownOn (n : Node) (line : List Token) : Prop :=
  match n.kind with
  | .error => ∃ c, line = [c] ∧ c.kind = .comment ∧ c.value = n.remark
  | .comment => ∃ c, line = [c] ∧ c.kind = .comment ∧ n.value = some c.value
  | kind => (∀ t ∈ line, t.kind ≠ .comment) ∧ ∀ word, kind.keyword? = some word →
    headKind line = word

/-- The lines on which statements begin are those of `es`, one after another. -/
def Charts (es : List Node) (ts : List Token) : Prop :=
  List.Forall₂ Node.ShownOn es (Token.entryLines ts)

section

variable {n : Nat} {t : Token} {l xs ys us : List Token} {es fs : List Node} {e : Node}

lemma Token.entryLines_append (ht : t.kind = .newline) :
    entryLines (xs ++ t :: ys) = entryLines xs ++ entryLines ys := by
  rw [entryLines, List.splitOnP_append_cons _ _ (by rw [ht]; rfl), List.filter_append]
  rfl

lemma Token.entryLines_cons (ht : t.kind = .newline) : entryLines (t :: ys) = entryLines ys :=
  @entryLines_append t [] ys ht

lemma Token.entryLines_line (h : ∀ t ∈ l, t.kind ≠ .newline) :
    entryLines l = if opensEntry l then [l] else [] := by
  rw [entryLines, List.splitOnP_eq_singleton fun t ht => by simpa using h t ht,
    List.filter_singleton]
  cases opensEntry l <;> rfl

lemma ne_of_endsLine {kind : TokenKind} (h : kind.endsLine = false) :
    kind ≠ .newline ∧ kind ≠ .comment := by
  constructor <;> rintro rfl <;> cases h

lemma charts_nil : Charts [] [] := List.Forall₂.nil

lemma Charts.append (h : Charts es xs) (h' : Charts fs ys)
    (hys : ys = [] ∨ ∃ zs, ys = lineEndToken :: zs) : Charts (es ++ fs) (xs ++ ys) := by
  rcases hys with rfl | ⟨zs, rfl⟩
  · cases h'
    simpa using h
  · have hrest : Token.entryLines (lineEndToken :: zs) = Token.entryLines zs :=
      Token.entryLines_cons rfl
    rw [Charts, hrest] at h'
    rw [Charts, Token.entryLines_append rfl]
    exact List.rel_append h h'

/-- A line for one more statement. -/
lemma Node.ShownOn.charts (he : e.ShownOn l) (hl : ∀ t ∈ l, t.kind ≠ .newline)
    (ho : Token.opensEntry l = true) (h : Charts es ys)
    (hys : ys = [] ∨ ∃ zs, ys = lineEndToken :: zs) : Charts (e :: es) (l ++ ys) := by
  refine @Charts.append l ys [e] es ?_ h hys
  rw [Charts, Token.entryLines_line hl, if_pos ho]
  exact .cons he .nil

/-- A line that begins with a closing brace is none of a statement. -/
lemma Charts.behind (ht : t.kind = .rightBrace) (hl : ∀ t ∈ l, t.kind ≠ .newline)
    (h : Charts es ys) (hys : ys = [] ∨ ∃ zs, ys = lineEndToken :: zs) :
    Charts es (t :: l ++ ys) := by
  refine @Charts.append (t :: l) ys [] es ?_ h hys
  have hline : ∀ u ∈ t :: l, u.kind ≠ .newline :=
    List.forall_mem_cons.mpr ⟨by rw [ht]; decide, hl⟩
  have hopens : Token.opensEntry (t :: l) = false := by simp [Token.opensEntry, ht]
  rw [Charts, Token.entryLines_line hline, hopens]
  exact .nil

/-- A line end before the first line. -/
lemma charts_lineEnd : Charts es (lineEndToken :: ys) ↔ Charts es ys := by
  rw [Charts, Token.entryLines_cons rfl, Charts]

/-- A statement that is no comment and no error, on its line. -/
lemma Node.shownOn_cons {kind : Kind} (hk : e.kind = kind) (hc : kind ≠ .comment)
    (hr : kind ≠ .error) (hw : ∀ word, kind.keyword? = some word → t.kind = word)
    (hl : ∀ u ∈ t :: l, u.kind.endsLine = false) : e.ShownOn (t :: l) := by
  have hcomment : ∀ u ∈ t :: l, u.kind ≠ .comment := fun u hu => (ne_of_endsLine (hl u hu)).2
  unfold ShownOn
  rw [hk]
  cases kind <;> first | exact absurd rfl hc | exact absurd rfl hr | exact ⟨hcomment, hw⟩

end

/-! ### Writing lines -/

/-- The brace that closes a block. -/
def closerToken : Token := { kind := .rightBrace, value := "\x7d" }

/-- The brace that opens a block. -/
def openerToken : Token := { kind := .leftBrace, value := "\x7b" }

/-- For a statement its line is written, and below it those of the statements in it. -/
def Node.Enters (n : Nat) (e : Node) : Prop :=
  ∀ s, ∃ s' d xs, statement e s = .ok ((), s')
    ∧ Prints n EndsLine (lineEndToken :: xs) s s' ('\n' :: d) ∧ Charts e.entries xs

/-- Writing `body` adds the lines of statements, or nothing. -/
def EntersLines (n : Nat) (body : Write Unit) (es : List Node) : Prop :=
  ∀ s, ∃ s' d xs, body s = .ok ((), s') ∧ Prints n EndsLine xs s s' d ∧ (d = [] ∨ EndsLine d)
    ∧ Charts es xs

/-- Writing the body of a block and its closing brace adds the lines of statements. -/
def EntersBlock (n : Nat) (body : Write Unit) (es : List Node) : Prop :=
  ∀ s, ∃ s' d xs, closing body s = .ok ((), s')
    ∧ Prints n Scan.EndsToken (lineEndToken :: xs) s s' ('\n' :: d)
    ∧ ∀ fs ys, Charts fs (closerToken :: ys) → Charts (es ++ fs) (xs ++ ys)

/-- Writing clauses goes on on the line of a closing brace and adds the lines of
statements. -/
def EntersClauses (n : Nat) (ns : List Node) : Prop :=
  ∀ s : Sheet, s.lines ≠ [] → ∃ s' d xs, clauses 0 ns s = .ok ((), s')
    ∧ Prints n Scan.EndsToken xs s s' d ∧ (d = [] ∨ d.head? = some ' ')
    ∧ Charts (ns.flatMap Node.entries) (closerToken :: xs)

section

variable {n : Nat} {K : List Char → Prop} {s s' : Sheet} {d w : List Char} {t : Token}
  {l us xs ys : List Token} {es ns : List Node} {e : Node} {body : Write Unit} {header : String}

/-- What begins with a line end holds the mark of one first. -/
lemma Prints.fresh (h : Prints n EndsLine xs s s' d) (hd : d = [] ∨ EndsLine d) :
    xs = [] ∨ ∃ zs, xs = lineEndToken :: zs := by
  have hspread := h.spread ['\n'] rfl
  rcases hd with rfl | hd
  · generalize hw : ([] : List Char) = w at hspread
    cases hspread with
    | last _ hwritten => exact .inl (hwritten.head.1 hw.symm)
    | @line _ _ v => cases v <;> cases hw
  · cases d with
    | nil => cases hd
    | cons x d =>
      cases hd
      obtain ⟨zs, hzs, -⟩ := hspread.tail
      exact .inr ⟨zs, hzs⟩

lemma endsLine_append {k : List Char} (hd : d = [] ∨ EndsLine d) (hk : EndsLine k) :
    EndsLine (d ++ k) := by
  rcases hd with rfl | hd
  · exact hk
  · cases d with
    | nil => cases hd
    | cons x d => exact hd

/-- Statements are written one after another. -/
lemma enters_statements (h : ∀ e ∈ es, e.Enters n) :
    EntersLines n (statements es) (es.flatMap Node.entries) := by
  induction es with
  | nil => exact fun s => ⟨s, [], [], run_statements_nil s, .refl s, .inl rfl, charts_nil⟩
  | cons e es ih =>
    rw [List.forall_mem_cons] at h
    intro s
    obtain ⟨s', d, xs, hrun, hfirst, hcharts⟩ := h.1 s
    obtain ⟨s'', d', ys, hrun', hmore, hd, hcharts'⟩ := ih h.2 s'
    have hwhole := hfirst.trans hmore fun k hk => endsLine_append hd hk
    refine ⟨s'', _, _, (run_statements_cons hrun).trans hrun', hwhole, .inr rfl, ?_⟩
    exact charts_lineEnd.mpr (hcharts.append hcharts' (hmore.fresh hd))

/-- A block ends with a brace on a line of its own. -/
lemma EntersLines.closing (h : EntersLines n body es) : EntersBlock n body es := by
  intro s
  obtain ⟨s', d, xs, hbody, hprints, hd, hcharts⟩ := h { s with indent := s.indent + 1 }
  have hspelled : closerToken.Spelled n := .operator (by decide)
  obtain ⟨s'', e, hclosing, hwhole⟩ := hprints.closed hbody hd hspelled rfl
  rcases hprints.fresh hd with rfl | ⟨zs, rfl⟩
  · refine ⟨s'', e, [closerToken], hclosing, hwhole, fun fs ys hfs => ?_⟩
    cases hcharts
    exact hfs
  · refine ⟨s'', e, zs ++ [lineEndToken, closerToken], hclosing, hwhole, fun fs ys hfs => ?_⟩
    rw [charts_lineEnd] at hcharts
    rw [List.append_assoc]
    exact hcharts.append (charts_lineEnd.mpr hfs) (.inr ⟨_, rfl⟩)

/-- The tokens on a line that holds tokens of one statement. -/
lemma Puts.written (h : Puts n none (t :: us) w) (ht : t.kind.isSeparator = false) :
    ∃ xs, Balanced (t :: xs) ∧ (∀ u ∈ t :: xs, u.kind.endsLine = false)
      ∧ ∀ k, Scan.EndsToken k → Written n (t :: xs) w k := by
  obtain ⟨xs, hxs, hw⟩ := h
  have hline := (hw [' '] (Scan.endsToken_cons rfl rfl)).endsLine
  obtain ⟨ys, rfl⟩ := hxs.head ht fun x hx => (ne_of_endsLine (hline x hx)).1
  exact ⟨ys, hxs.balanced, hline, hw⟩

/-- The tokens on the line of a header. -/
lemma Puts.writtenHeader (h : Puts n none (t :: us) header.toList) (hne : header.toList ≠ [])
    (ht : t.kind.isSeparator = false) :
    ∃ xs, Balanced (t :: xs) ∧ (∀ u ∈ t :: xs, u.kind.endsLine = false)
      ∧ ∀ k, Scan.EndsToken k → Written n (t :: xs) (header ++ " \x7b").toList k := by
  have hspelled : openerToken.Spelled n := .operator (by decide)
  exact (puts_header h hne hspelled rfl).1.written ht

/-! ### Blocks -/

/-- The line of a statement with a block stands above the lines of the block. -/
lemma EntersBlock.below {kind : Kind} (h : EntersBlock n body es) (hk : e.kind = kind)
    (hword : kind.keyword? = some t.kind) (hheader : Puts n none (t :: us) header.toList)
    (hne : header.toList ≠ []) (s : Sheet) :
    ∃ s' d xs, Source.block header body s = .ok ((), s')
      ∧ Prints n Scan.EndsToken (lineEndToken :: xs) s s' ('\n' :: d)
      ∧ ∀ fs ys, Charts fs (closerToken :: ys) → Charts (e :: (es ++ fs)) (xs ++ ys) := by
  obtain ⟨hcomment, herror, hsep, hbrace, heof⟩ := Kind.keyword?_spec hword
  obtain ⟨l, hb, hl, hw⟩ := hheader.writtenHeader hne hsep
  obtain ⟨d, hline, hfirst⟩ := prints_line (by simp [hne]) hb hw s
  obtain ⟨s', d', xs, hclosing, hmore, hcharts⟩ := h (s.lined (header ++ " \x7b"))
  have hwhole := hfirst.trans hmore fun k _ => Scan.endsToken_cons rfl rfl
  refine ⟨s', _, _, by rw [Source.block, run_then hline, hclosing], hwhole, fun fs ys hfs => ?_⟩
  have hshown : e.ShownOn (t :: l) :=
    Node.shownOn_cons hk hcomment herror (fun word h => Option.some.inj (hword.symm.trans h)) hl
  have hopens : Token.opensEntry (t :: l) = true := by simp [Token.opensEntry, hbrace, heof]
  have hall := hshown.charts (fun u hu => (ne_of_endsLine (hl u hu)).1) hopens
    (charts_lineEnd.mpr (hcharts fs ys hfs)) (.inr ⟨_, rfl⟩)
  simpa using hall

/-- A statement of a header and a block. -/
lemma EntersBlock.statement {kind : Kind} (h : EntersBlock n body es)
    (hrun : ∀ s, Source.statement e s = Source.block header body s) (hk : e.kind = kind)
    (hword : kind.keyword? = some t.kind) (hheader : Puts n none (t :: us) header.toList)
    (hne : header.toList ≠ []) (hentries : e.entries = e :: es) : e.Enters n := by
  intro s
  obtain ⟨s', d, xs, hblock, hprints, hcharts⟩ := h.below hk hword hheader hne s
  refine ⟨s', d, xs, (hrun s).trans hblock, hprints.mono fun _ hk => hk.endsToken, ?_⟩
  have hend : Charts [] (closerToken :: []) :=
    Charts.behind (l := []) rfl (by simp) charts_nil (.inl rfl)
  simpa [hentries] using hcharts [] [] hend

/-- A statement of a header, a block and clauses. -/
lemma EntersBlock.choice {kind : Kind} (h : EntersBlock n body es) (hmore : EntersClauses n ns)
    (hrun : ∀ s, Source.statement e s = (Source.block header body >>= fun _ => clauses 0 ns) s)
    (hk : e.kind = kind) (hword : kind.keyword? = some t.kind)
    (hheader : Puts n none (t :: us) header.toList) (hne : header.toList ≠ [])
    (hentries : e.entries = e :: (es ++ ns.flatMap Node.entries)) : e.Enters n := by
  intro s
  obtain ⟨s', d, xs, hblock, hfirst, hcharts⟩ := h.below hk hword hheader hne s
  obtain ⟨s'', d', ys, hclauses, hrest, hd, hcharts'⟩ := hmore s' (hfirst.lines_ne_nil (by simp))
  have hwhole := hfirst.trans hrest fun k hk => endsToken_clauses hd hk
  refine ⟨s'', _, _, ?_, hwhole.mono fun _ hk => hk.endsToken, ?_⟩
  · rw [hrun, run_then hblock, hclauses]
  · rw [hentries]
    exact hcharts _ _ hcharts'

/-- A clause goes on behind a closing brace. -/
lemma EntersBlock.clause (h : EntersBlock n body es)
    (hrun : ∀ s, clauses 0 (e :: ns) s = (attached header body >>= fun _ => clauses 0 ns) s)
    (hheader : Puts n none (t :: us) header.toList) (hne : header.toList ≠ [])
    (ht : t.kind.isSeparator = false) (hentries : e.entries = es) (hmore : EntersClauses n ns) :
    EntersClauses n (e :: ns) := by
  intro s hs
  obtain ⟨l, hb, hl, hw⟩ := hheader.writtenHeader hne ht
  obtain ⟨s₁, hattach, hfirst⟩ := prints_attach (by simp [hne]) hb hw hs
  obtain ⟨s₂, d, xs, hclosing, hblock, hcharts⟩ := h s₁
  obtain ⟨s₃, d', ys, hclauses, hrest, hd, hcharts'⟩ := hmore s₂ (hblock.lines_ne_nil (by simp))
  have hwhole := (hfirst.trans hblock fun k _ => Scan.endsToken_cons rfl rfl).trans hrest
    fun k hk => endsToken_clauses hd hk
  refine ⟨s₃, _, _, ?_, hwhole, .inr rfl, ?_⟩
  · rw [hrun, run_then (by rw [attached, run_then hattach, hclosing]), hclauses]
  · have hbelow := hcharts _ _ hcharts'
    rw [List.flatMap_cons, hentries]
    have hall := Charts.behind (t := closerToken) rfl (fun u hu => (ne_of_endsLine (hl u hu)).1)
      (charts_lineEnd.mpr hbelow) (.inr ⟨_, rfl⟩)
    simpa using hall

end

end StpLang
