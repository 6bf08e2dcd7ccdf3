import StpLang.Proofs.Recovery
import StpLang.Proofs.Reparse.Resume

/-!
Editing a program that has been read.

Reading an edited text again keeps the statements before the edit and reads on
behind them. The outcome is that of reading the whole text: the same error, or
the same root and errors and the same comments in some order.

* `keptStatements_inv` tells which statements stay.
* `reparse_agrees` compares one edit with reading the whole text.
* `editing_agrees` follows an editing session.
-/

namespace StpLang

open StpLang.Parser Parse Grammar Lexer

/-- Two trees agree on the root and the errors, and on the comments in some
order. -/
structure Tree.Agrees (t u : Tree) : Prop where
  root : t.root = u.root
  errors : t.errors = u.errors
  trivia : t.trivia.Perm u.trivia

/-- Reading again ends like reading the whole text. -/
inductive SameOutcome : Except Error Reparsed → Except Error Tree → Prop
  | ok {r : Reparsed} {t : Tree} (h : r.tree.Agrees t) : SameOutcome (.ok r) (.ok t)
  | error {e : Error} : SameOutcome (.error e) (.error e)

/-! ### The tree before the edit -/

/-- A tree without errors is derived from the tokens of the text. -/
lemma derives_of_parse {source : String} {strict : Bool} {limit : Int} {t : Tree}
    (h : parse source strict limit = .ok t) (he : t.errors = []) :
    ∃ ts k, (settle 0 none (lexFrom limit (lexerOf source)).tokens).1 = ts ++ k
      ∧ Derives limit.toNat (.statements 0 false) ts k t.root.children
      ∧ t.trivia = (settle 0 none (lexFrom limit (lexerOf source)).tokens).2
        ++ ts.flatMap Token.snippetComments := by
  have hrun : lexFrom limit (lexerOf source) = Lexed.run limit (.ofText source) :=
    (run_eq_lexFrom limit (.ofText source)).symm
  have hstrict : parse source true limit = .ok t := by
    rcases parse_either source limit with ⟨u, hu, -⟩ | ⟨e, u, hfails, hu, hne⟩
    · exact (hu true).trans ((hu strict).symm.trans h)
    · cases strict with
      | true => cases hfails.symm.trans h
      | false =>
        cases hu.symm.trans h
        exact absurd he hne
  rw [hrun]
  cases hf : (Lexed.run limit (.ofText source)).fault with
  | some fault =>
    rw [parse_strict_of_fault hf] at hstrict
    cases hstrict
  | none =>
    rw [parse_of_cut true hf, readTokens_result] at hstrict
    generalize Lexed.run limit (.ofText source) = lexed at hstrict ⊢
    cases hs : program (level limit true limit.toNat) 0 (startAt lexed.tokens lexed.trace) with
    | error e s => rw [hs] at hstrict; cases hstrict
    | ok root s =>
      rw [hs] at hstrict
      cases hstrict
      obtain ⟨ts, hts, hd, -⟩ := derives_of_program hs
      exact ⟨ts, s.rest, hts.rest, hd, Moves.trivia hts⟩

/-- The statements that stay: each ends before the edit, and the last is no `if`
unless another one follows it before the edit. -/
lemma keptStatements_inv {cs : List Char} {start : Int} {children : List Node} {last : Node}
    (h : (keptStatements cs start children).getLast? = some last) :
    ∃ ms more os r, keptStatements cs start children = ms ++ [last]
      ∧ children = ms ++ last :: (more ++ os) ∧ separatorEnd? cs last = some r ∧ (r : Int) ≤ start
      ∧ ((more = [] ∧ last.kind ≠ .ifStatement)
        ∨ ∃ m q, more = [m] ∧ separatorEnd? cs m = some q ∧ (q : Int) ≤ start) := by
  obtain ⟨os, hos⟩ : ∃ os, children = settledStatements cs start children ++ os :=
    ⟨_, List.takeWhile_append_dropWhile.symm⟩
  have hends : ∀ n ∈ settledStatements cs start children,
      ∃ r, separatorEnd? cs n = some r ∧ (r : Int) ≤ start := by
    intro n hn
    have hall := List.all_eq_true.mp List.all_takeWhile n hn
    cases hr : separatorEnd? cs n with
    | none => rw [hr] at hall; cases hall
    | some r =>
      rw [hr] at hall
      exact ⟨r, rfl, of_decide_eq_true hall⟩
  unfold keptStatements at h ⊢
  dsimp only at h ⊢
  generalize settledStatements cs start children = settled at h hos hends ⊢
  split at h
  · rename_i hif
    rw [if_pos hif]
    cases hlast : settled.getLast? with
    | none => rw [hlast] at hif; cases hif
    | some m =>
      obtain ⟨init, rfl⟩ := List.getLast?_eq_some_iff.mp hlast
      rw [List.dropLast_concat] at h ⊢
      obtain ⟨ms, rfl⟩ := List.getLast?_eq_some_iff.mp h
      obtain ⟨r, hr, hle⟩ := hends last (by simp)
      obtain ⟨q, hq, hle'⟩ := hends m (by simp)
      exact ⟨ms, [m], os, r, rfl, by rw [hos]; simp, hr, hle, .inr ⟨m, q, rfl, hq, hle'⟩⟩
  · rename_i hif
    rw [if_neg hif]
    obtain ⟨ms, hms⟩ := List.getLast?_eq_some_iff.mp h
    obtain ⟨r, hr, hle⟩ := hends last (by rw [hms]; simp)
    refine ⟨ms, [], os, r, hms, ?_, hr, hle, .inl ⟨rfl, ?_⟩⟩
    · rw [hos, hms]
      simp
    · rw [h] at hif
      simpa using hif

/-! ### The tokens of the edited text -/

section

variable {limit : Int} {source edited : String} {as : List Token} {x : Token} {t t' : Lexer}

/-- The prepared tokens up to a separator. -/
abbrev leadTokens (as : List Token) (x : Token) : List Token := (settle 0 none (as ++ [x])).1

/-- The prepared tokens behind a separator. -/
abbrev restTokens (limit : Int) (x : Token) (t : Lexer) : List Token :=
  (settle 0 (some x.kind) (lexFrom limit t).tokens).1

/-- Preparing the tokens before and behind a place where no group is open. -/
lemma Cutting.settle_eq (h : Cutting limit source as x t) (hb : Balanced (leadTokens as x)) :
    settle 0 none (lexFrom limit (lexerOf source)).tokens
      = (leadTokens as x ++ restTokens limit x t,
        (settle 0 none (as ++ [x])).2
          ++ (settle 0 (some x.kind) (lexFrom limit t).tokens).2) := by
  have hdepth : depthBehind 0 (as ++ [x]) = 0 := by
    rw [← depth_settle 0 none (as ++ [x]) 0, hb.depth]
  have hlast : lastKind none (leadTokens as x) = some x.kind := by
    rw [leadTokens, settle_append, settle_cons, keptToken?_separator h.separator]
    simp [lastKind, settle]
  rw [h.lexes.lexFrom_eq.1, settle_append, hdepth, hlast]

lemma exists_not_newline {a loops : Nat} {ws k : List Token} {n : Node}
    (h : Derives a (.statement loops) ws k [n]) : ∃ t ∈ ws, t.kind ≠ .newline := by
  obtain ⟨t, ts, rfl, ht⟩ := h.first rfl
  refine ⟨t, List.mem_cons_self, fun hk => ?_⟩
  rw [hk] at ht
  cases ht

/-- A statement that stays, with its separator, is read in the edited text. -/
lemma kept_series {a loops : Nat} {us ws ms l k : List Token} {ns : List Node} {n : Node}
    (hs : Series a loops us (ws ++ (ms ++ l)) ns) (hn : Derives a (.statement loops) ws (ms ++ l) [n])
    (hx : x.kind.isSeparator = true)
    (hms : (ms = [] ∧ (∃ vs, ws = vs ++ [x]) ∧ ∀ l, Derives a (.statement loops) ws l [n])
      ∨ ms = [x])
    (hclause : n.kind = .ifStatement → clauseAhead (ms ++ k) = clauseAhead (ms ++ l)) :
    Series a loops (us ++ (ws ++ ms)) k (ns ++ [n]) := by
  have hne := exists_not_newline hn
  have hshares : Shares (ws ++ (ms ++ l)) (ws ++ (ms ++ k)) := by
    rcases hms with ⟨rfl, ⟨vs, rfl⟩, -⟩ | rfl
    · simpa using Shares.of_separator hx vs l k
    · exact .of_separator hx ws l k
  have hlead := hs.change hshares (clauseAhead_of_mem hne)
  have hlast : Series a loops (ws ++ ms) k [n] := by
    rcases hms with ⟨rfl, -, hall⟩ | rfl
    · rw [List.append_nil]
      exact .one (hall k)
    · refine .more (hn.change (.of_separator hx [] l k) ?_) (.separator hx .nil)
      rintro ⟨m, hm, hkind⟩
      rw [List.mem_singleton.mp hm] at hkind
      exact hclause hkind
  rw [← List.append_assoc] at hlead
  exact hlead.trans hlast

/-- The statements that stay are read in the edited text, up to the same
place. -/
theorem exists_kept {a r : Nat} {ts k : List Token} {ms more os : List Node} {n : Node}
    (hS : (settle 0 none (lexFrom limit (lexerOf source)).tokens).1 = ts ++ k)
    (hd : Derives a (.statements 0 false) ts k (ms ++ n :: (more ++ os)))
    (hr : separatorEnd? source.toList n = some r)
    (hsame : edited.toList.take r = source.toList.take r)
    (hmore : (more = [] ∧ n.kind ≠ .ifStatement)
      ∨ ∃ m q, more = [m] ∧ separatorEnd? source.toList m = some q
        ∧ edited.toList.take q = source.toList.take q) :
    ∃ as x t t', Cutting limit source as x t ∧ t.cursor.pos = r
      ∧ Cutting limit edited as x t' ∧ t'.cursor.pos = r ∧ Balanced (leadTokens as x)
      ∧ Series a 0 (leadTokens as x) (restTokens limit x t') (ms ++ [n]) := by
  obtain ⟨us, ws, vs, rfl, hus, hn, hvs⟩ := hd.split_statements
  rw [List.append_assoc, List.append_assoc] at hS
  obtain ⟨ps, l, as, x, t, hps, hcut, hpos, hsettle, hend⟩ :=
    exists_cutting hS hus.balanced hn hr
  obtain ⟨t', hcut', hpos'⟩ := hcut.carry (hpos ▸ hsame)
  rw [hps] at hus hn
  have hlead : leadTokens as x = us ++ (ws ++ ps) := hsettle
  have hbalanced : Balanced (leadTokens as x) := by
    rw [hlead]
    refine hus.balanced.append (hn.balanced.append ?_)
    rcases hend with ⟨rfl, -⟩ | rfl
    · exact .nil
    · exact .plain (TokenKind.isInner_of_isSeparator hcut.separator) .nil
  refine ⟨as, x, t, t', hcut, hpos, hcut', hpos'.trans hpos, hbalanced, ?_⟩
  rw [hlead]
  refine kept_series hus hn hcut.separator hend fun hif => ?_
  -- behind an `if` another statement comes before the edit, so no clause follows
  rcases hmore with ⟨-, hnot⟩ | ⟨m, q, rfl, hq, hsame'⟩
  · exact absurd hif hnot
  · have hos : [m] ++ os = [] ++ m :: os := rfl
    rw [hos] at hvs
    obtain ⟨us', ws', vs', rfl, hus', hn', -⟩ := hvs.split_statements
    have hbalanced' := (hus.balanced.append (hn.balanced.append hus'.balanced))
    have hS' : (settle 0 none (lexFrom limit (lexerOf source)).tokens).1
        = (us ++ (ws ++ us')) ++ (ws' ++ (vs' ++ k)) := by
      rw [hS]
      simp
    obtain ⟨ps', l', as', x', u, -, hcutm, hposm, hsettlem, hendm⟩ :=
      exists_cutting hS' hbalanced' hn' hq
    obtain ⟨u', hcutm', -⟩ := hcutm.carry (hposm ▸ hsame')
    have hleadm : leadTokens as' x' = (us ++ (ws ++ us')) ++ (ws' ++ ps') := hsettlem
    have hbalancedm : Balanced (leadTokens as' x') := by
      rw [hleadm]
      refine hbalanced'.append (hn'.balanced.append ?_)
      rcases hendm with ⟨rfl, -⟩ | rfl
      · exact .nil
      · exact .plain (TokenKind.isInner_of_isSeparator hcutm.separator) .nil
    have hboth := (hcut'.settle_eq hbalanced).symm.trans (hcutm'.settle_eq hbalancedm)
    have hnew : ps ++ restTokens limit x t' = (us' ++ ws') ++ (ps' ++ restTokens limit x' u') := by
      have := (Prod.mk.inj hboth).1
      rw [hlead, hleadm] at this
      simpa using this
    have hold : ps ++ l = (us' ++ ws') ++ (vs' ++ k) := by
      rw [← hps]
      simp
    obtain ⟨z, hz, hzk⟩ := exists_not_newline hn'
    rw [hnew, hold]
    exact clauseAhead_of_mem ⟨z, List.mem_append_right _ hz, hzk⟩

/-! ### Reading on -/

/-- The comments before a separator. -/
abbrev leadComments (as : List Token) (x : Token) : List Node :=
  (settle 0 none (as ++ [x])).2 ++ (leadTokens as x).flatMap Token.snippetComments

/-- The cursor at an offset of a text. -/
abbrev cursorAt (source : String) (pos : Nat) : Cursor :=
  .atOffset source pos (Text.lineAt source.toList pos) (Text.colAt source.toList pos)

/-- Reading all tokens and reading those behind the separator. -/
lemma readTokens_behind {kept : List Node} (strict : Bool) (tr tr' : List Event)
    (hcut : Cutting limit edited as x t) (hb : Balanced (leadTokens as x))
    (hkept : Series limit.toNat 0 (leadTokens as x) (restTokens limit x t) kept) :
    (∃ e, (readTokens limit strict (lexFrom limit (lexerOf edited)).tokens tr).result = .error e
      ∧ (readTokens limit strict (Lexed.run limit (cursorAt edited t.cursor.pos)).tokens tr').result
        = .error e)
    ∨ ∃ u v, (readTokens limit strict (lexFrom limit (lexerOf edited)).tokens tr).result = .ok u
      ∧ (readTokens limit strict (Lexed.run limit (cursorAt edited t.cursor.pos)).tokens tr').result
        = .ok v
      ∧ u.root = sourceNode u.root.stop (kept ++ v.root.children) ∧ u.errors = v.errors
      ∧ u.trivia.Perm (leadComments as x ++ v.trivia)
      ∧ ((lexFrom limit (lexerOf edited)).fault = none → u.root.stop = edited.toList.length) := by
  obtain ⟨y, ys, b, hrest, hpart⟩ := hcut.agree_rest.tokens
  obtain ⟨halike, htrivia⟩ := settle_behind hcut.separator y ys b
  rw [← hrest, ← hpart] at halike htrivia
  have hsettle := hcut.settle_eq hb
  have hs : (startAt (lexFrom limit (lexerOf edited)).tokens tr).rest
      = leadTokens as x ++ restTokens limit x t := congrArg Prod.fst hsettle
  have heof : (startAt (Lexed.run limit (cursorAt edited t.cursor.pos)).tokens tr').eof
      = (startAt (lexFrom limit (lexerOf edited)).tokens tr).eof := by
    refine eof_of_alike hs halike ?_
    obtain ⟨us, e, hus, he, hne, -⟩ := lexFrom_last limit t
    obtain ⟨vs, hvs, -⟩ := settle_last 0 (some x.kind) he hne
    rw [restTokens, hus, hvs]
    simp
  have hbehind := program_behind limit strict hkept hs halike heof
  rw [readTokens_result, readTokens_result]
  generalize program (level limit strict limit.toNat) 0
    (startAt (lexFrom limit (lexerOf edited)).tokens tr) = r at hbehind ⊢
  generalize program (level limit strict limit.toNat) 0
    (startAt (Lexed.run limit (cursorAt edited t.cursor.pos)).tokens tr') = r' at hbehind ⊢
  cases hbehind with
  | error => exact .inl ⟨_, rfl, rfl⟩
  | @ok ns es cs us us' p q hm hm' he hstop =>
    refine .inr ⟨_, _, rfl, rfl, rfl, hm.errors.trans hm'.errors.symm, ?_, fun hfault => ?_⟩
    · show p.trivia.Perm (_ ++ q.trivia)
      have hall : p.trivia = _ := hm.trivia
      have hpart : q.trivia = _ := hm'.trivia
      have hfull : (startAt (lexFrom limit (lexerOf edited)).tokens tr).trivia = _ :=
        congrArg Prod.snd hsettle
      have hrest : (startAt (Lexed.run limit (cursorAt edited t.cursor.pos)).tokens tr').trivia = _ :=
        htrivia
      rw [hall, hpart, hfull, hrest, leadComments]
      -- the comments behind the separator and those in the snippets before it change places
      simp only [List.append_assoc]
      refine List.Perm.append_left _ ?_
      rw [← List.append_assoc, ← List.append_assoc]
      exact List.Perm.append_right _ List.perm_append_comm
    · obtain ⟨ts, e, hts, he', hne, hend⟩ := lexFrom_last limit (lexerOf edited)
      obtain ⟨vs, hvs, hnot⟩ := settle_last 0 none he' hne
      rw [← hts] at hvs
      show p.current.stop = _
      rw [stop_of_loopEnds hvs hnot hm he, hend hfault]
      exact (Cursor.in_ofText edited).length

/-- The statements that stay and the rest of the text make the tree of the whole
text. -/
lemma resume_agrees {old : Tree} {kept : List Node} (strict : Bool)
    (hcut : Cutting limit edited as x t) (hb : Balanced (leadTokens as x))
    (hkept : Series limit.toNat 0 (leadTokens as x) (restTokens limit x t) kept)
    (hold : (old.trivia.filter (·.stop ≤ t.cursor.pos)).Perm (leadComments as x)) :
    SameOutcome (do
        let rest ← (readFrom limit strict (cursorAt edited t.cursor.pos)).result
        return ⟨joinKept old kept t.cursor.pos edited.toList.length rest, kept.length⟩)
      (parse edited strict limit) := by
  have hbehind := fun tr tr' => readTokens_behind strict tr tr' hcut hb hkept
  have hfault : (Lexed.run limit (cursorAt edited t.cursor.pos)).fault
      = (lexFrom limit (lexerOf edited)).fault :=
    hcut.agree_rest.fault.trans hcut.lexes.lexFrom_eq.2.symm
  have hlength : (cursorAt edited t.cursor.pos).past.length
      + (cursorAt edited t.cursor.pos).rest.length = edited.toList.length := by
    have hin := hcut.lexes.cursor_in (Cursor.in_ofText edited)
    have hat := Cursor.in_atOffset edited (hin.length ▸ Nat.le_add_right _ _)
    rw [← hat.pos, hat.length]
  unfold parse read readFrom
  rw [run_eq_lexFrom limit (.ofText edited)]
  dsimp only
  generalize Lexed.run limit (cursorAt edited t.cursor.pos) = part at hbehind hfault ⊢
  generalize lexFrom limit (lexerOf edited) = full at hbehind hfault ⊢
  rw [hfault]
  cases hf : full.fault with
  | none =>
    dsimp only
    rcases hbehind full.trace part.trace with ⟨e, hu, hv⟩ | ⟨u, v, hu, hv, hroot, herr, htri, hstop⟩
    · rw [hu, hv]
      exact .error
    · rw [hu, hv]
      refine .ok ⟨?_, herr.symm, (hold.append_right _).trans htri.symm⟩
      rw [hroot, hstop hf]
      rfl
  | some fault =>
    dsimp only
    cases strict with
    | true => exact .error
    | false =>
      rw [if_neg Bool.false_ne_true, if_neg Bool.false_ne_true, hlength]
      rcases hbehind (.lexingStopped fault.error :: full.trace)
        (.lexingStopped fault.error :: part.trace)
        with ⟨e, hu, hv⟩ | ⟨u, v, hu, hv, hroot, herr, htri, -⟩
      · rw [hu, hv]
        exact .error
      · rw [hu, hv]
        refine .ok ⟨?_, congrArg (· ++ [fault.error]) herr.symm,
          (hold.append_right _).trans htri.symm⟩
        have hofText : (Cursor.ofText edited).past.length + (Cursor.ofText edited).rest.length
            = edited.toList.length := by
          rw [← (Cursor.in_ofText edited).pos, (Cursor.in_ofText edited).length]
        show (joinKept old kept t.cursor.pos edited.toList.length
          (v.withUnreadable fault edited.toList.length)).root = (u.withUnreadable fault _).root
        rw [hofText]
        unfold Tree.withUnreadable
        rw [hroot]
        simp [Node.spanning, joinKept, Tree.ofNode]

/-- The comments that stay are those before the separator. -/
lemma filter_trivia {a r : Nat} {ts k : List Token} {ns trivia : List Node}
    (hS : (settle 0 none (lexFrom limit (lexerOf source)).tokens).1 = ts ++ k)
    (hd : Derives a (.statements 0 false) ts k ns)
    (htrivia : trivia = (settle 0 none (lexFrom limit (lexerOf source)).tokens).2
      ++ ts.flatMap Token.snippetComments)
    (hcut : Cutting limit source as x t) (hr : t.cursor.pos = r) (hb : Balanced (leadTokens as x)) :
    trivia.filter (·.stop ≤ r) = leadComments as x := by
  rw [hcut.settle_eq hb] at hS htrivia
  dsimp only at hS htrivia
  -- the statements go on to the end mark, which is behind the separator
  obtain ⟨bs, rfl, hrest⟩ : ∃ bs, ts = leadTokens as x ++ bs ∧ restTokens limit x t = bs ++ k := by
    rcases List.append_eq_append_iff.mp hS with ⟨bs, h1, h2⟩ | ⟨bs, h1, h2⟩
    · exact ⟨bs, h1, h2⟩
    · cases bs with
      | nil => exact ⟨[], by simpa using h1.symm, by simpa using h2.symm⟩
      | cons b bs =>
        have heof := hd.statements_end
        rw [h2] at heof
        exact absurd heof (hb.ne_eof b (by rw [h1]; simp))
  have hlead := hcut.lexes.placed
  have htail := placed_lexFrom limit t
  have hbs : ∀ u ∈ restTokens limit x t, u.Placed _ _ := placed_settle htail 0 (some x.kind)
  rw [hrest, List.forall_mem_append] at hbs
  subst hr
  rw [htrivia, List.flatMap_append]
  exact filter_comments (settle_comments hlead 0 none) (settle_comments htail 0 _)
    (snippet_comments (placed_settle hlead 0 none)) (snippet_comments hbs.1)

end

/-! ### One edit -/

/-- An edit leaves the text before it alone. -/
lemma Edit.take_apply {e : Edit} {source : String} {r : Nat}
    (he : e.fits source.toList.length = true) (hr : (r : Int) ≤ e.start) :
    (e.apply source).toList.take r = source.toList.take r := by
  have hfits : 0 ≤ e.start ∧ e.start ≤ e.stop ∧ e.stop ≤ source.toList.length := by
    simpa [Edit.fits, and_assoc] using he
  rw [Edit.apply, String.toList_ofList, List.append_assoc, List.take_append_of_le_length]
  · rw [List.take_take, Nat.min_eq_left (by omega)]
  · rw [List.length_take]
    omega

/-- One edit of a text whose tree is known up to the order of its comments. -/
theorem reparse_agrees {source : String} {strict₀ : Bool} {limit : Int} {t old : Tree}
    (h : parse source strict₀ limit = .ok t) (hold : old.Agrees t) {e : Edit}
    (he : e.fits source.toList.length = true) (strict : Bool) :
    SameOutcome (reparse old source e strict limit) (parse (e.apply source) strict limit) := by
  have hanew : SameOutcome (do return ⟨← parse (e.apply source) strict limit, 0⟩)
      (parse (e.apply source) strict limit) := by
    cases parse (e.apply source) strict limit with
    | ok u => exact .ok ⟨rfl, rfl, .refl _⟩
    | error err => exact .error
  unfold reparse
  dsimp only
  split
  · exact hanew
  rename_i herrors
  rw [Bool.or_eq_true, not_or] at herrors
  have hnone : t.errors = [] := by
    rw [← hold.errors]
    simpa using herrors.1
  split
  · exact hanew
  rename_i last hlast
  obtain ⟨ms, more, os, r, hkept, hchildren, hr, hle, hmore⟩ := keptStatements_inv hlast
  obtain ⟨ts, k, hS, hd, htrivia⟩ := derives_of_parse h hnone
  rw [← hold.root, hchildren] at hd
  obtain ⟨as, x, c, c', hcut, hpos, hcut', hpos', hb, hseries⟩ :=
    exists_kept hS hd hr (Edit.take_apply he hle) (hmore.imp_right fun ⟨m, q, hm, hq, hle'⟩ =>
      ⟨m, q, hm, hq, Edit.take_apply he hle'⟩)
  have hfilter := filter_trivia hS hd htrivia hcut hpos hb
  rw [hr, Option.getD_some, ← hpos', hkept]
  refine resume_agrees strict hcut' hb hseries ?_
  rw [hpos', ← hfilter]
  exact hold.trivia.filter _

/-! ### Editing sessions -/

/-- The text and the tree of an editing session. A text is opened and edited
again and again; an edit that cannot be read leaves both as they were. -/
inductive Editing (limit : Int) : String → Tree → Prop
  | opened {source : String} {strict : Bool} {t : Tree} (h : parse source strict limit = .ok t) :
      Editing limit source t
  | edited {source : String} {t : Tree} {e : Edit} {strict : Bool} {r : Reparsed}
      (h : Editing limit source t) (he : e.fits source.toList.length = true)
      (hr : reparse t source e strict limit = .ok r) : Editing limit (e.apply source) r.tree
  | failed {source : String} {t : Tree} {e : Edit} {strict : Bool} {err : Error}
      (h : Editing limit source t) (he : e.fits source.toList.length = true)
      (hr : reparse t source e strict limit = .error err) : Editing limit source t

/-- The tree of a session is that of its text. -/
lemma Editing.parsed {limit : Int} {source : String} {t : Tree} (h : Editing limit source t) :
    ∃ strict u, parse source strict limit = .ok u ∧ t.Agrees u := by
  induction h with
  | @opened _ strict t h => exact ⟨strict, t, h, rfl, rfl, .refl _⟩
  | @edited source t e strict r _ he hr ih =>
    obtain ⟨strict₀, u, hu, hagrees⟩ := ih
    have hsame := reparse_agrees hu hagrees he strict
    rw [hr] at hsame
    generalize hp : parse (e.apply source) strict limit = p at hsame
    cases hsame with
    | ok ha => exact ⟨strict, _, hp, ha⟩
  | failed _ _ _ ih => exact ih

/-- Every edit of a session ends like reading the edited text as a whole: with
the same error, or with the same root and errors and the same comments in some
order. -/
theorem editing_agrees {limit : Int} {source : String} {t : Tree} (h : Editing limit source t)
    {e : Edit} (he : e.fits source.toList.length = true) (strict : Bool) :
    SameOutcome (reparse t source e strict limit) (parse (e.apply source) strict limit) := by
  obtain ⟨strict₀, u, hu, hagrees⟩ := h.parsed
  exact reparse_agrees hu hagrees he strict

/-- The second statement of a program is replaced. -/
theorem editing_agrees_replace :
    ∃ t, Editing 8 "a;b" t ∧ SameOutcome (reparse t "a;b" ⟨2, 3, "c"⟩ true 8)
      (parse (Edit.apply ⟨2, 3, "c"⟩ "a;b") true 8) := by
  obtain ⟨t, ht⟩ := readFrom_ok 8 (.ofText "a;b")
  exact ⟨t, .opened ht, editing_agrees (.opened ht) (by decide) true⟩

end StpLang
