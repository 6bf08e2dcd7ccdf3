import StpLang.Proofs.Grammar.Sound

/-!
What a strict reader reads is derived: statements and programs.

* `reads_statement` reads a statement of any kind.
* `phraseLevel` ties the levels together.
* `derives_of_program`: a program that is read strictly is derived.
-/

namespace StpLang

open Parse Grammar

section

variable {a b loops : Nat} {L : Level} {read : Nonterminal → Parse Node} {s t : Parser}
  {n : Node}

/-! ### Sequences of statements -/

/-- A strict reader attempts nothing else than to read. -/
lemma attempt_strict (inBlock : Bool) (readOne : Parse Node) :
    attempt true inBlock readOne = readOne := by
  funext s
  unfold attempt
  cases readOne s <;> rfl

/-- The token that closes a sequence of statements. -/
def blockCloser (inBlock : Bool) : Option TokenKind :=
  if inBlock then some .rightBrace else none

lemma statements_inv {readOne : Parse Node} (hr : Reads b (.statement loops) readOne)
    (inBlock : Bool) {bound : Nat} {ns : List Node}
    (h : statements true readOne (blockCloser inBlock) bound s = .ok ns t)
    (hb : s.rest.length ≤ bound) :
    ∃ ts, Passes s t ts ∧ Derives b (.statements loops inBlock) ts t.rest ns := by
  induction bound generalizing s ns with
  | zero =>
    cases h
    refine ⟨[], .refl _, .statementsEnd (.inl ?_)⟩
    rw [List.length_eq_zero_iff.mp (Nat.le_zero.mp hb)]
    rfl
  | succ bound ih =>
    rw [statements, run_current, Parser.current_kind] at h
    split at h
    · rename_i hsep
      rw [discard_bind] at h
      obtain ⟨x, u, hx, h⟩ := bind_eq_ok.mp h
      have hne : headKind s.rest ≠ .eof := by
        intro he
        rw [he] at hsep
        cases hsep
      have hstr : headKind s.rest ≠ .string := by
        intro he
        rw [he] at hsep
        cases hsep
      obtain ⟨-, -, hxk, hp⟩ := advance_inv rfl hne hstr hx
      have hlen := hp.length
      rw [List.length_singleton] at hlen
      obtain ⟨ts, hts, hd⟩ := ih h (by omega)
      exact ⟨_, hp.trans hts, .statementsSeparator (hxk ▸ hsep) hd⟩
    · split at h
      · rename_i hend
        cases h
        refine ⟨[], .refl _, .statementsEnd ?_⟩
        cases inBlock with
        | true =>
          simp only [blockCloser, if_true, Bool.or_eq_true, beq_iff_eq, Option.some.injEq] at hend
          exact hend.imp_right fun h => ⟨rfl, h.symm⟩
        | false => simpa [blockCloser] using hend
      · rw [attempt_strict] at h
        obtain ⟨x, u, hx, h⟩ := bind_eq_ok.mp h
        obtain ⟨xs, v, hxs, h⟩ := bind_eq_ok.mp h
        cases h
        obtain ⟨ts, hts, hd⟩ := hr.run hx
        obtain ⟨y, ys, rfl, -⟩ := hd.first rfl
        have hlen := hts.length
        rw [List.length_cons] at hlen
        obtain ⟨us, hus, hds⟩ := ih hxs (by omega)
        exact ⟨_, hts.trans hus, .statementsMore (hus.rest ▸ hd) hds⟩

lemma reads_block (hL : PhraseLevel a L) (loops : Nat) :
    Reads a (.block loops) (block L loops) := by
  refine ⟨fun {s n t} h => ?_⟩
  unfold block at h
  rw [run_current, Parser.current_kind] at h
  split at h
  · cases h
  rename_i hk
  have hk : headKind s.rest = .leftBrace := by simpa using hk
  dsimp only at h
  rw [discard_bind] at h
  obtain ⟨o, u, ho, h⟩ := bind_eq_ok.mp h
  obtain ⟨hor, -, hok, hop⟩ := advance_inv hk (by decide) (by decide) ho
  rw [Parser.current_of_rest hor] at h
  obtain ⟨children, v, hchildren, h⟩ := bind_eq_ok.mp h
  obtain ⟨b, read, rfl, hread, hchildren⟩ := nested_inv hL hchildren
  rw [run_tokensLeft, hL.strict] at hchildren
  obtain ⟨xs, w, hxs, hclose⟩ := bind_eq_ok.mp hchildren
  rw [discard_bind] at hclose
  obtain ⟨c, w', hc, hclose⟩ := bind_eq_ok.mp hclose
  cases hclose
  obtain ⟨ts, hts, hd⟩ := statements_inv (hread.statement loops) true hxs (Nat.le_refl _)
  obtain ⟨hcr, -, hck, hcp⟩ := close_inv (by rw [hok]; rfl) (by decide) (by decide) hc
  rw [run_node, hcp.previous_stop (by simp)] at h
  cases h
  exact ⟨_, hop.trans (hts.trans hcp), .block hok (hcr ▸ hd) hck⟩

/-- A block is never empty. -/
lemma Derives.block_ne_nil {ts k : List Token} {ns : List Node}
    (h : Derives a (.block loops) ts k ns) : ts ≠ [] := by
  obtain ⟨x, xs, rfl, -⟩ := h.first rfl
  exact List.cons_ne_nil x xs

/-! ### Simple statements -/

lemma semicolon_inv {mark : Option String} (h : semicolon s = .ok mark t) :
    ∃ ms, Passes s t ms ∧ Mark ms t.rest mark := by
  unfold semicolon at h
  obtain ⟨y, u, hy, h⟩ := bind_eq_ok.mp h
  cases h
  rcases accept_inv (by decide) (by decide) hy with ⟨rfl, rfl, hk⟩ | ⟨x, rfl, hx, hp, -⟩
  · exact ⟨[], .refl _, .none hk⟩
  · exact ⟨[x], hp, .semicolon hx⟩

lemma assignment_inv (hL : PhraseLevel a L) (h : assignment L s = .ok n t) :
    ∃ ts, Passes s t ts ∧ Derives a (.statement loops) ts t.rest [n] := by
  unfold assignment at h
  obtain ⟨name, u, hname, h⟩ := bind_eq_ok.mp h
  obtain ⟨x, rfl, hx, -, -, hxp⟩ := leafOf_inv (by decide) (by decide) hname
  rw [discard_bind] at h
  obtain ⟨e, v, he, h⟩ := bind_eq_ok.mp h
  obtain ⟨-, -, hek, hep⟩ := expect_one_inv (by decide) (by decide) he
  obtain ⟨value, w, hvalue, h⟩ := bind_eq_ok.mp h
  obtain ⟨ts, hts, hd⟩ := (reads_expression hL 1 false).run hvalue
  obtain ⟨mark, y, hmark, h⟩ := bind_eq_ok.mp h
  obtain ⟨ms, hms, hm⟩ := semicolon_inv hmark
  have hp := hts.trans hms
  rw [run_node, hp.previous_stop (by simp [hd.ne_nil])] at h
  cases h
  exact ⟨x :: e :: (ts ++ ms), hxp.trans (hep.trans hp), .assignment hx hek (hms.rest ▸ hd) hm⟩

lemma expressionStatement_inv (hL : PhraseLevel a L) (hb : bindingAhead s.rest = false)
    (h : expressionStatement L s = .ok n t) :
    ∃ ts, Passes s t ts ∧ Derives a (.statement loops) ts t.rest [n] := by
  unfold expressionStatement at h
  obtain ⟨value, w, hvalue, h⟩ := bind_eq_ok.mp h
  obtain ⟨ts, hts, hd⟩ := (reads_expression hL 1 false).run hvalue
  obtain ⟨mark, y, hmark, h⟩ := bind_eq_ok.mp h
  obtain ⟨ms, hms, hm⟩ := semicolon_inv hmark
  have hp := hts.trans hms
  rw [run_node, hp.previous_stop (by simp [hd.ne_nil])] at h
  cases h
  rw [hts.rest, hms.rest] at hb
  exact ⟨_, hp, .expressionStatement (hms.rest ▸ hd) hb hm⟩

lemma symbolDeclaration_inv (h : symbolDeclaration s = .ok n t) :
    ∃ ts, Passes s t ts ∧ Derives a (.statement loops) ts t.rest [n] := by
  unfold symbolDeclaration at h
  obtain ⟨x, u, hx, h⟩ := bind_eq_ok.mp h
  obtain ⟨-, -, hxk, hxp⟩ := expect_one_inv (by decide) (by decide) hx
  obtain ⟨name, v, hname, h⟩ := bind_eq_ok.mp h
  obtain ⟨y, rfl, hy, -, -, hyp⟩ := leafOf_inv (by decide) (by decide) hname
  rw [run_node, hyp.previous_stop (by simp)] at h
  cases h
  exact ⟨_, hxp.trans hyp, .symbolDeclaration hxk hy⟩

lemma importStatement_inv (h : importStatement s = .ok n t) :
    ∃ ts, Passes s t ts ∧ Derives a (.statement loops) ts t.rest [n] := by
  unfold importStatement at h
  obtain ⟨x, u, hx, h⟩ := bind_eq_ok.mp h
  obtain ⟨-, -, hxk, hxp⟩ := expect_one_inv (by decide) (by decide) hx
  rw [run_current] at h
  split at h
  · cases h
  obtain ⟨name, v, hname, h⟩ := bind_eq_ok.mp h
  obtain ⟨ts, hts, hd⟩ := (reads_memberAccess a false).run hname
  have hne : ts ≠ [] := by
    obtain ⟨y, ys, rfl, -⟩ := hd.first rfl
    exact List.cons_ne_nil y ys
  rw [run_node, hts.previous_stop hne] at h
  cases h
  exact ⟨_, hxp.trans hts, .importStatement hxk hd⟩

lemma returnStatement_inv (hL : PhraseLevel a L) (h : returnStatement L s = .ok n t) :
    ∃ ts, Passes s t ts ∧ Derives a (.statement loops) ts t.rest [n] := by
  unfold returnStatement at h
  obtain ⟨x, u, hx, h⟩ := bind_eq_ok.mp h
  obtain ⟨-, -, hxk, hxp⟩ := expect_one_inv (by decide) (by decide) hx
  obtain ⟨e, v, he, h⟩ := bind_eq_ok.mp h
  obtain ⟨ts, hts, hd⟩ := (reads_expression hL 1 false).run he
  rw [run_node, hts.previous_stop hd.ne_nil] at h
  cases h
  exact ⟨_, hxp.trans hts, .returnStatement hxk hd⟩

/-! ### Statements with blocks -/

/-- The line ends before a clause are passed over. -/
lemma passes_atClause (s : Parser) :
    ∃ ls, Passes s (atClause s) ls ∧ (∀ l ∈ ls, l.kind = .newline)
      ∧ headKind (atClause s).rest = clauseKind s.rest := by
  have htake : s.rest.take (s.rest.takeWhile (·.kind == .newline)).length
      = s.rest.takeWhile (·.kind == .newline) :=
    (List.prefix_iff_eq_take.mp (List.takeWhile_prefix _)).symm
  have hm := Moves.forward (s.rest.takeWhile (·.kind == .newline)).length s
  rw [htake] at hm
  have hl : ∀ l ∈ s.rest.takeWhile (·.kind == .newline), l.kind = .newline := by
    intro l hl
    simpa using List.all_eq_true.mp List.all_takeWhile l hl
  refine ⟨_, ?_, hl, ?_⟩
  · have hcomments : (s.rest.takeWhile (·.kind == .newline)).flatMap Token.snippetComments = [] := by
      rw [List.flatMap_eq_nil_iff]
      intro l hmem
      exact Token.snippetComments_of_kind (by rw [hl l hmem]; decide)
    rw [Passes, hcomments]
    exact hm
  · have hrest : s.rest.takeWhile (·.kind == .newline) ++ s.rest.dropWhile (·.kind == .newline)
        = s.rest.takeWhile (·.kind == .newline) ++ (atClause s).rest :=
      List.takeWhile_append_dropWhile.trans hm.rest
    rw [clauseKind, List.append_cancel_left hrest]

lemma clauses_inv (hL : PhraseLevel a L) {bound : Nat} {seenElse : Bool} {ns : List Node}
    (hb : s.rest.length ≤ bound) (h : clauses L loops bound seenElse s = .ok ns t) :
    ∃ ts, Passes s t ts ∧ Derives a (.clauses loops seenElse) ts t.rest ns := by
  induction bound generalizing s ns seenElse with
  | zero =>
    cases h
    refine ⟨[], .refl _, .clausesEnd ?_⟩
    rw [List.length_eq_zero_iff.mp (Nat.le_zero.mp hb)]
    rfl
  | succ bound ih =>
    obtain ⟨ls, hls, hl, hkind⟩ := passes_atClause s
    have hlen := hls.length
    by_cases h1 : s.significant.kind = .kwElseif
    · rw [clauses_elseif h1] at h
      rw [Parser.significant_kind] at h1
      unfold elseifFrom at h
      obtain ⟨x, u, hx, h⟩ := bind_eq_ok.mp h
      obtain ⟨-, -, hxk, hxp⟩ := advance_inv (hkind.trans h1) (by decide) (by decide) hx
      cases seenElse with
      | true => simp only [if_true] at h; cases h
      | false =>
      simp only [Bool.false_eq_true, if_false] at h
      obtain ⟨e, v, he, h⟩ := bind_eq_ok.mp h
      obtain ⟨ts, hts, hd⟩ := (reads_expression hL 1 false).run he
      obtain ⟨body, w, hbody, h⟩ := bind_eq_ok.mp h
      obtain ⟨us, hus, hbd⟩ := (reads_block hL loops).run hbody
      rw [run_node_bind, hus.previous_stop hbd.block_ne_nil] at h
      obtain ⟨more, y, hmore, h⟩ := bind_eq_ok.mp h
      cases h
      have h1 := hxp.length
      have h2 := hts.length
      have h3 := hus.length
      rw [List.length_singleton] at h1
      obtain ⟨vs, hvs, hcs⟩ := ih (by omega) hmore
      rw [hus.rest, hvs.rest] at hd
      rw [hvs.rest] at hbd
      exact ⟨_, hls.trans (hxp.trans (hts.trans (hus.trans hvs))),
        .clausesElseif hl hxk hd hbd hcs⟩
    · by_cases h2 : s.significant.kind = .kwElse
      · rw [clauses_else h2] at h
        rw [Parser.significant_kind] at h2
        unfold elseFrom at h
        obtain ⟨x, u, hx, h⟩ := bind_eq_ok.mp h
        obtain ⟨-, -, hxk, hxp⟩ := advance_inv (hkind.trans h2) (by decide) (by decide) hx
        cases seenElse with
        | true => simp only [if_true] at h; cases h
        | false =>
        simp only [Bool.false_eq_true, if_false] at h
        obtain ⟨body, w, hbody, h⟩ := bind_eq_ok.mp h
        obtain ⟨us, hus, hbd⟩ := (reads_block hL loops).run hbody
        rw [run_node_bind, hus.previous_stop hbd.block_ne_nil] at h
        obtain ⟨more, y, hmore, h⟩ := bind_eq_ok.mp h
        cases h
        have h1 := hxp.length
        have h2 := hus.length
        rw [List.length_singleton] at h1
        obtain ⟨vs, hvs, hcs⟩ := ih (by omega) hmore
        rw [hvs.rest] at hbd
        exact ⟨_, hls.trans (hxp.trans (hus.trans hvs)), .clausesElse hl hxk hbd hcs⟩
      · rw [clauses_end h1 h2] at h
        cases h
        refine ⟨[], .refl _, .clausesEnd ?_⟩
        rw [Parser.significant_kind] at h1 h2
        simp [clauseAhead, h1, h2]

lemma ifStatement_inv (hL : PhraseLevel a L) (h : ifStatement L loops s = .ok n t) :
    ∃ ts, Passes s t ts ∧ Derives a (.statement loops) ts t.rest [n] := by
  unfold ifStatement at h
  obtain ⟨x, u, hx, h⟩ := bind_eq_ok.mp h
  obtain ⟨-, -, hxk, hxp⟩ := expect_one_inv (by decide) (by decide) hx
  obtain ⟨e, v, he, h⟩ := bind_eq_ok.mp h
  obtain ⟨ts, hts, hd⟩ := (reads_expression hL 1 false).run he
  obtain ⟨body, w, hbody, h⟩ := bind_eq_ok.mp h
  obtain ⟨us, hus, hbd⟩ := (reads_block hL loops).run hbody
  rw [run_tokensLeft] at h
  obtain ⟨more, y, hmore, h⟩ := bind_eq_ok.mp h
  obtain ⟨vs, hvs, hcs⟩ := clauses_inv hL (Nat.le_refl _) hmore
  have hp := hus.trans hvs
  rw [run_node, hp.previous_stop (by simp [hbd.block_ne_nil])] at h
  cases h
  rw [hus.rest, hvs.rest] at hd
  rw [hvs.rest] at hbd
  exact ⟨_, hxp.trans (hts.trans hp), .ifStatement hxk hd hbd hcs⟩

lemma whileLoop_inv (hL : PhraseLevel a L) (h : whileLoop L loops s = .ok n t) :
    ∃ ts, Passes s t ts ∧ Derives a (.statement loops) ts t.rest [n] := by
  unfold whileLoop at h
  obtain ⟨x, u, hx, h⟩ := bind_eq_ok.mp h
  obtain ⟨-, -, hxk, hxp⟩ := expect_one_inv (by decide) (by decide) hx
  obtain ⟨e, v, he, h⟩ := bind_eq_ok.mp h
  obtain ⟨ts, hts, hd⟩ := (reads_expression hL 1 false).run he
  obtain ⟨body, w, hbody, h⟩ := bind_eq_ok.mp h
  obtain ⟨us, hus, hbd⟩ := (reads_block hL _).run hbody
  rw [run_node, hus.previous_stop hbd.block_ne_nil] at h
  cases h
  exact ⟨_, hxp.trans (hts.trans hus), .whileLoop hxk (hus.rest ▸ hd) hbd⟩

lemma forLoop_inv (hL : PhraseLevel a L) (h : forLoop L loops s = .ok n t) :
    ∃ ts, Passes s t ts ∧ Derives a (.statement loops) ts t.rest [n] := by
  unfold forLoop at h
  obtain ⟨x, u, hx, h⟩ := bind_eq_ok.mp h
  obtain ⟨-, -, hxk, hxp⟩ := expect_one_inv (by decide) (by decide) hx
  obtain ⟨name, u', hname, h⟩ := bind_eq_ok.mp h
  obtain ⟨y, rfl, hy, -, -, hyp⟩ := leafOf_inv (by decide) (by decide) hname
  rw [discard_bind] at h
  obtain ⟨i, u'', hi, h⟩ := bind_eq_ok.mp h
  obtain ⟨-, -, hik, hip⟩ := expect_one_inv (by decide) (by decide) hi
  obtain ⟨e, v, he, h⟩ := bind_eq_ok.mp h
  obtain ⟨ts, hts, hd⟩ := (reads_expression hL 1 false).run he
  obtain ⟨body, w, hbody, h⟩ := bind_eq_ok.mp h
  obtain ⟨us, hus, hbd⟩ := (reads_block hL _).run hbody
  rw [run_node, hus.previous_stop hbd.block_ne_nil] at h
  cases h
  exact ⟨_, hxp.trans (hyp.trans (hip.trans (hts.trans hus))),
    .forLoop hxk hy hik (hus.rest ▸ hd) hbd⟩

lemma functionDefinition_inv (hL : PhraseLevel a L) (h : functionDefinition L s = .ok n t) :
    ∃ ts, Passes s t ts ∧ Derives a (.statement loops) ts t.rest [n] := by
  unfold functionDefinition at h
  obtain ⟨x, u, hx, h⟩ := bind_eq_ok.mp h
  obtain ⟨-, -, hxk, hxp⟩ := expect_one_inv (by decide) (by decide) hx
  obtain ⟨name, u', hname, h⟩ := bind_eq_ok.mp h
  obtain ⟨y, rfl, hy, -, -, hyp⟩ := leafOf_inv (by decide) (by decide) hname
  obtain ⟨o, u'', ho, h⟩ := bind_eq_ok.mp h
  obtain ⟨-, -, hok, hop⟩ := expect_one_inv (by decide) (by decide) ho
  obtain ⟨⟨p, q⟩, v, hargs, h⟩ := bind_eq_ok.mp h
  obtain ⟨ls, us, vs, c, xs, ys, hp, -, hlead, hds, hks, hck, rfl, rfl⟩ :=
    arguments_inv (reads_expression hL 1 false) hok hargs
  obtain ⟨body, w, hbody, h⟩ := bind_eq_ok.mp h
  obtain ⟨ws, hws, hbd⟩ := (reads_block hL 0).run hbody
  rw [run_node, hws.previous_stop hbd.block_ne_nil] at h
  cases h
  rw [hws.rest] at hlead hds hks
  have hpass := hxp.trans (hyp.trans (hop.trans (hp.trans hws)))
  refine ⟨_, ?_, .functionDefinition hxk hy hok hlead hds hks hck hbd⟩
  simpa using hpass

/-! ### Statements of every kind -/

lemma tokenStatement_inv {kind : TokenKind} {k : Kind} (hs : headKind s.rest = kind)
    (hk : kind ≠ .eof) (hstr : kind ≠ .string) (h : tokenStatement k s = .ok n t) :
    ∃ x, n = .leaf k x ∧ x.kind = kind ∧ Passes s t [x] := by
  unfold tokenStatement at h
  obtain ⟨x, u, hx, h⟩ := bind_eq_ok.mp h
  cases h
  obtain ⟨-, -, hxk, hp⟩ := advance_inv hs hk hstr hx
  exact ⟨x, rfl, hxk, hp⟩

lemma loopControl_inv {kind : TokenKind} (hs : headKind s.rest = kind) (hk : kind ≠ .eof)
    (hstr : kind ≠ .string) (h : loopControl loops s = .ok n t) :
    loops ≠ 0 ∧ ∃ x, n = .leaf (.ofName x.value) x ∧ x.kind = kind ∧ Passes s t [x] := by
  unfold loopControl at h
  obtain ⟨x, u, hx, h⟩ := bind_eq_ok.mp h
  obtain ⟨-, -, hxk, hp⟩ := advance_inv hs hk hstr hx
  split at h
  · cases h
  · rename_i hl
    cases h
    exact ⟨hl, x, rfl, hxk, hp⟩

lemma reads_statement (hL : PhraseLevel a L) (loops : Nat) :
    Reads a (.statement loops) (statement L loops) := by
  refine ⟨fun {s n t} h => ?_⟩
  unfold statement at h
  rw [run_get] at h
  have hkind := s.current_kind
  have hexpression (hk : headKind s.rest ≠ .identifier) (h : expressionStatement L s = .ok n t) :
      ∃ ts, Passes s t ts ∧ Derives a (.statement loops) ts t.rest [n] :=
    expressionStatement_inv hL (by simp [bindingAhead, hk]) h
  cases hk : s.current.kind with
  | comment =>
    simp only [hk] at h
    obtain ⟨x, rfl, hx, hp⟩ := tokenStatement_inv (hkind ▸ hk) (by decide) (by decide) h
    exact ⟨_, hp, .comment hx⟩
  | kwExit =>
    simp only [hk] at h
    obtain ⟨x, rfl, hx, hp⟩ := tokenStatement_inv (hkind ▸ hk) (by decide) (by decide) h
    exact ⟨_, hp, .exit hx⟩
  | kwBreak =>
    simp only [hk] at h
    obtain ⟨hl, x, rfl, hx, hp⟩ := loopControl_inv (hkind ▸ hk) (by decide) (by decide) h
    exact ⟨_, hp, .loopControl (.inl hx) hl⟩
  | kwCont =>
    simp only [hk] at h
    obtain ⟨hl, x, rfl, hx, hp⟩ := loopControl_inv (hkind ▸ hk) (by decide) (by decide) h
    exact ⟨_, hp, .loopControl (.inr hx) hl⟩
  | kwSym => simp only [hk] at h; exact symbolDeclaration_inv h
  | kwIf => simp only [hk] at h; exact ifStatement_inv hL h
  | kwWhile => simp only [hk] at h; exact whileLoop_inv hL h
  | kwFor => simp only [hk] at h; exact forLoop_inv hL h
  | kwFn => simp only [hk] at h; exact functionDefinition_inv hL h
  | kwImport => simp only [hk] at h; exact importStatement_inv h
  | kwRet => simp only [hk] at h; exact returnStatement_inv hL h
  | rightParen | rightBracket | rightBrace | kwElse | kwElseif => simp only [hk] at h; cases h
  | identifier =>
    simp only [hk, Parser.peek_kind, List.drop_one] at h
    split at h
    · exact assignment_inv hL h
    · rename_i hc
      exact expressionStatement_inv hL (by simp [bindingAhead, hc]) h
  | _ =>
    simp only [hk] at h
    exact hexpression (by rw [← hkind, hk]; simp) h

end

/-! ### The whole grammar -/

/-- Every strict level reads phrases. -/
lemma phraseLevel (limit : Int) (n : Nat) : PhraseLevel n (level limit true n) := by
  induction n with
  | zero => exact ⟨rfl, rfl, fun read h => by cases h⟩
  | succ n ih =>
    refine ⟨rfl, rfl, fun read h => ⟨n, rfl, ?_⟩⟩
    cases h
    refine ⟨fun least m => ?_, fun m => ?_, fun loops => ?_⟩
    · rw [derive_eq]
      exact reads_expression ih least m
    · rw [derive_eq]
      exact reads_unary ih m
    · rw [derive_eq]
      exact reads_statement ih loops

/-- A program that is read strictly is derived, and nothing but end marks is
left. -/
lemma derives_of_program {limit : Int} {n loops : Nat} {s t : Parser} {root : Node}
    (h : program (level limit true n) loops s = .ok root t) :
    ∃ ts, Passes s t ts ∧ Derives n (.statements loops false) ts t.rest root.children
      ∧ root = .spanning .sourceFile ⟨1, 1, 0⟩ t.current.stop root.children := by
  have hL := phraseLevel limit n
  rw [run_program, hL.strict] at h
  obtain ⟨xs, u, hxs, h⟩ := bind_eq_ok.mp h
  rw [run_current] at h
  cases h
  obtain ⟨ts, hts, hd⟩ :=
    statements_inv (reads_statement hL loops) false hxs (Nat.le_refl _)
  exact ⟨ts, (Moves.of_trace s _).trans hts, hd, rfl⟩

end StpLang
