import StpLang.Proofs.Accepted
import StpLang.Proofs.Reparse
import StpLang.Proofs.Shift.Statement

/-!
Programs one after another.

A program that ends with a line end leaves nothing behind: no open group, no pending
clause unless its last statement is an `if`, and no white space that would matter to
`mod`. So a second text behind it is read as it is read alone, moved.

* `endsWithLine` tells that a text ends with the token of a line end.
* `Derives.tidy`: no statement ends with a line end.
* `exists_lead` carries the statements of the first text over to the joined text.
* `parse_append` compares the joined text with its parts.
-/

namespace StpLang

open Grammar Lexer StpLang.Parser

/-- The last token before the end mark is a line end that ends the text. -/
def endsWithLine (source : String) (limit : Int) : Bool :=
  match tokenize source limit with
  | .ok tokens => tokens.dropLast.getLast?.any fun t =>
      t.kind == .newline && t.stop == source.toList.length
  | .error _ => false

/-- The tree of a text behind a program with the tree `lead`: the same error, moved,
or the statements of the program and those of the text, moved, with the moved errors
and all the comments. -/
inductive Joined (d : Shift) (lead : Tree) : Except Error Tree → Except Error Tree → Prop
  | error (e : Error) : Joined d lead (.error e) (.error (e.shift d))
  | ok {t u : Tree}
      (children : u.root.children = lead.root.children ++ t.root.children.map (Node.shift d))
      (errors : u.errors = t.errors.map (Error.shift d))
      (trivia : u.trivia.Perm (lead.trivia ++ t.trivia.map (Node.shift d))) :
      Joined d lead (.ok t) (.ok u)

/-! ### The last token of a phrase -/

/-- The last of the tokens, if there is one, is no line end. -/
def Tidy (ts : List Token) : Prop := ∀ t, ts.getLast? = some t → t.kind ≠ .newline

namespace Tidy

variable {t c : Token} {ts us : List Token} {kind : TokenKind}

lemma nil : Tidy [] := fun _ h => nomatch h

lemma append (h : Tidy ts) (h' : Tidy us) : Tidy (ts ++ us) := by
  intro t ht
  rw [List.getLast?_append] at ht
  cases hu : us.getLast? with
  | some u => exact h' t (by rw [hu] at ht ⊢; exact ht)
  | none => exact h t (by rwa [hu] at ht)

lemma last (ts : List Token) (hc : c.kind = kind) (hk : kind ≠ .newline) : Tidy (ts ++ [c]) := by
  intro t ht
  rw [List.getLast?_concat, Option.some.injEq] at ht
  rw [← ht, hc]
  exact hk

lemma one (ht : t.kind = kind) (hk : kind ≠ .newline) (h : Tidy ts) : Tidy (t :: ts) :=
  (last [] ht hk).append h

/-- Other tokens before the last ones do not count. -/
lemma behind (ts : List Token) (h : Tidy us) (hne : us ≠ []) : Tidy (ts ++ us) := by
  intro t ht
  obtain ⟨u, hu⟩ := Option.isSome_iff_exists.mp (List.getLast?_isSome.mpr hne)
  rw [List.getLast?_append, hu] at ht
  exact h t (hu.trans ht)

end Tidy

lemma Mark.tidy {ms k : List Token} {mark : Option String} (h : Mark ms k mark) : Tidy ms := by
  cases h with
  | none => exact .nil
  | semicolon h => exact .one h (by decide) .nil

/-- Sequences of statements apart, no phrase ends with a line end. -/
lemma Derives.tidy {a : Nat} {p : Phrase} {ts k : List Token} {ns : List Node}
    (h : Derives a p ts k ns) (hp : ∀ loops inBlock, p ≠ .statements loops inBlock) : Tidy ts := by
  induction h with
  | expression _ _ ihl iho => exact (ihl (by simp)).append (iho (by simp))
  | operatorsMore hop _ _ _ _ ihr iho =>
    exact .one rfl (by rintro hk; rw [hk] at hop; cases hop) ((ihr (by simp)).append (iho (by simp)))
  | unaryPrefix hop _ ih => exact .one rfl (by rintro hk; rw [hk] at hop; cases hop) (ih (by simp))
  | unaryPlain _ _ ihp ihs => exact (ihp (by simp)).append (ihs (by simp))
  | suffixesMore hop _ _ ih =>
    simp only [suffixAhead, headKind_cons, Bool.and_eq_true] at hop
    exact .one rfl (by rintro hk; rw [hk] at hop; cases hop.1) (ih (by simp))
  | matrix _ _ hc | bracketed _ _ hc => exact .last (_ :: _) hc (by decide)
  | plainName _ _ ih => exact ih (by simp)
  | call _ _ _ _ hc =>
    rw [← List.append_assoc, ← List.cons_append, ← List.append_assoc]
    exact .last _ hc (by decide)
  | rangeOfTwo _ _ hy => exact .last [_, _] hy (by decide)
  | rangeOfThree _ _ _ _ hz => exact .last [_, _, _, _] hz (by decide)
  | number ht | string ht | comment ht | exit ht | argumentName ht =>
    exact .one ht (by decide) .nil
  | percentage _ hs =>
    simp only [percentAhead, headKind_cons, Bool.and_eq_true, beq_iff_eq] at hs
    exact .last [_] hs.1 (by decide)
  | name ht _ ih => exact .one ht (by decide) (ih (by simp))
  | membersMore hd ht _ ih =>
    simp only [dotAhead, headKind_cons, Bool.and_eq_true, beq_iff_eq] at hd
    exact .one hd.1 (by decide) (.one ht (by decide) (ih (by simp)))
  | argumentValue _ _ ih | argumentsLast _ _ ih | rowsLast _ _ _ ih => exact ih (by simp)
  | argumentKeyword ht he _ ih => exact .one ht (by decide) (.one he (by decide) (ih (by simp)))
  | argumentsMore _ hc _ _ ih ihs | elementsComma _ hc _ ih ihs | rowsMore _ _ hc _ ih ihs =>
    exact (ih (by simp)).append (.one hc (by decide) (ihs (by simp)))
  | elementsMore _ _ _ ih ihs => exact (ih (by simp)).append (ihs (by simp))
  | loopControl ht => exact .one rfl (by rcases ht with ht | ht <;> rw [ht] <;> decide) .nil
  | symbolDeclaration _ hx => exact .last [_] hx (by decide)
  | importStatement ht _ ih | returnStatement ht _ ih => exact .one ht (by decide) (ih (by simp))
  | assignment hx he _ hm ih =>
    exact .one hx (by decide) (.one he (by decide) ((ih (by simp)).append hm.tidy))
  | expressionStatement _ _ hm ih => exact (ih (by simp)).append hm.tidy
  | ifStatement ht _ _ _ ih ihb ihc =>
    exact .one ht (by decide) ((ih (by simp)).append ((ihb (by simp)).append (ihc (by simp))))
  | whileLoop ht _ _ ih ihb => exact .one ht (by decide) ((ih (by simp)).append (ihb (by simp)))
  | forLoop ht hx hi _ _ ih ihb =>
    exact .one ht (by decide) (.one hx (by decide) (.one hi (by decide)
      ((ih (by simp)).append (ihb (by simp)))))
  | @functionDefinition _ _ t x opener closer ls us vs ws _ _ _ _ _ _ _ _ _ _ _ hb _ _ ihb =>
    have heq : t :: x :: opener :: (ls ++ (us ++ (vs ++ closer :: ws)))
        = (t :: x :: opener :: (ls ++ (us ++ (vs ++ [closer])))) ++ ws := by simp
    rw [heq]
    exact .behind _ (ihb (by simp)) hb.block_ne_nil
  | block _ _ hc => exact .last (_ :: _) hc (by decide)
  | @clausesElseif _ _ t ls ts us vs _ _ _ _ _ ht _ _ _ ih ihb ihc =>
    exact .behind ls (.one ht (by decide) ((ih (by simp)).append ((ihb (by simp)).append (ihc (by simp)))))
      (List.cons_ne_nil _ _)
  | @clausesElse _ _ t ls us vs _ _ _ _ ht _ _ ihb ihc =>
    exact .behind ls (.one ht (by decide) ((ihb (by simp)).append (ihc (by simp)))) (List.cons_ne_nil _ _)
  | statementsEnd | statementsSeparator | statementsMore => exact absurd rfl (hp _ _)
  | _ => exact .nil

/-! ### The statements of the first text -/

section

variable {a : Nat} {us k l : List Token} {ns : List Node} {n : Node} {x : Token}

/-- Without statements there are separators only. -/
lemma Derives.separators (h : Derives a (.statements 0 false) us k []) :
    ∀ u ∈ us, u.kind.isSeparator = true := by
  generalize hp : Phrase.statements 0 false = p at h
  generalize hns : ([] : List Node) = ns at h
  induction h with
  | statementsEnd => simp
  | statementsSeparator ht _ ih =>
    cases hp
    exact List.forall_mem_cons.mpr ⟨ht, ih rfl hns⟩
  | statementsMore => cases hns
  | _ => cases hp

/-- Anything may follow separators. -/
lemma Series.separators (h : ∀ u ∈ us, u.kind.isSeparator = true) : Series a 0 us l [] := by
  induction us with
  | nil => exact .nil
  | cons u us ih =>
    rw [List.forall_mem_cons] at h
    exact .separator h.1 (ih h.2)

/-- The statements before a line end are read alike whatever follows, unless the last
one is an `if`. -/
lemma Derives.series (h : Derives a (.statements 0 false) us k ns)
    (hx : us.getLast? = some x) (hk : x.kind = .newline)
    (hlast : ∀ n, ns.getLast? = some n → n.kind ≠ .ifStatement) (l : List Token) :
    Series a 0 us l ns := by
  rcases List.eq_nil_or_concat ns with rfl | ⟨ms, n, rfl⟩
  · exact .separators h.separators
  rw [List.concat_eq_append] at h hlast ⊢
  obtain ⟨vs, ws, zs, rfl, hvs, hn, hzs⟩ := h.split_statements
  -- the line end belongs to the separators behind the last statement
  have hne : zs ≠ [] := by
    rintro rfl
    rw [List.append_nil] at hx
    obtain ⟨t, ts, rfl, -⟩ := hn.first rfl
    exact Tidy.behind vs (hn.tidy nofun) (List.cons_ne_nil _ _) x hx hk
  obtain ⟨y, zs, rfl⟩ := List.exists_cons_of_ne_nil hne
  have hsep := hzs.separators
  rw [List.forall_mem_cons] at hsep
  have hkept : Series a 0 (vs ++ (ws ++ [y])) (zs ++ l) (ms ++ [n]) :=
    kept_series hvs hn hsep.1 (.inr rfl) fun hif => absurd hif (hlast n (by simp))
  have hall := hkept.trans (.separators hsep.2)
  simpa using hall

end

/-! ### The place between the texts -/

section

variable {limit : Int} {source : String} {as : List Token} {x : Token} {t : Lexer}

/-- A line end is read where one stands. -/
lemma Lexeme.lineEnd_inv {R : SnippetRel} {c d : Cursor} {kind : TokenKind} {value : String}
    {segs : List (Segment Token)} (h : Lexeme R c kind value segs d) (hk : kind = .newline) :
    ∃ k, c.rest = '\n' :: k ∧ d = c.forward 1 := by
  have hop : ∀ o ∈ TokenKind.operators, o.2 ≠ .newline := by decide
  cases h with
  | lineEnd h => exact ⟨_, h, rfl⟩
  | word =>
    have hends := (wordKind_plain c.past (String.ofList (c.rest.take (Scan.wordLength c.rest)))
      (c.rest.drop (Scan.wordLength c.rest))).2.2.2.2
    rw [hk] at hends
    cases hends
  | operator h => exact absurd hk (hop _ (Scan.operator?_inv h).1)
  | _ => cases hk

/-- The text up to a line end. -/
lemma Cutting.lineEnd (h : Cutting limit source as x t) (hk : x.kind = .newline) :
    ∃ w, t.cursor.past = '\n' :: w := by
  obtain ⟨v, -, hlast⟩ := h.lexes.split
  cases hlast with
  | cons hlast hne hnil =>
    cases hnil
    obtain ⟨hlex⟩ := (textToken_cut hlast hne).1
    obtain ⟨k, hrest, hd⟩ := hlex.lineEnd_inv hk
    refine ⟨(v.cursor.forward (gap false v.groups v.cursor)).past, ?_⟩
    rw [hd, Cursor.forward_succ, Cursor.forward_zero, Cursor.step, hrest]

/-- The place behind the first of two texts is the moved beginning of the second. -/
lemma cursorAt_append {a : String} {w : List Char} (ha : a.toList.reverse = '\n' :: w) (b : String) :
    cursorAt (a ++ b) a.toList.length = (Cursor.ofText b).shift a.toList := by
  have htake : (a ++ b).toList.take a.toList.length = a.toList := by
    rw [String.toList_append, List.take_left]
  have hdrop : (a ++ b).toList.drop a.toList.length = b.toList := by
    rw [String.toList_append, List.drop_left]
  simp only [cursorAt, Cursor.atOffset, Cursor.ofText, Cursor.shift, Text.lineAt, Text.colAt, htake,
    hdrop, ha]
  simp [Nat.add_comm]

end

/-- The program before a line end in the joined text: the tokens up to the line end,
and the statements whatever follows. -/
lemma exists_lead {a : String} {limit : Int} {lead : Tree} (ha : parse a true limit = .ok lead)
    (hend : endsWithLine a limit = true)
    (hlast : ∀ n, lead.root.children.getLast? = some n → n.kind ≠ .ifStatement) :
    ∃ as x t w, Cutting limit a as x t ∧ t.cursor.pos = a.toList.length
      ∧ a.toList.reverse = '\n' :: w ∧ Balanced (leadTokens as x)
      ∧ (∀ k, Series limit.toNat 0 (leadTokens as x) k lead.root.children)
      ∧ lead.trivia = leadComments as x
      ∧ lead.trivia.filter (·.stop ≤ a.toList.length) = leadComments as x := by
  obtain ⟨ts, us, e, ns, hacc, rfl⟩ := parse_strict_iff.mp ha
  obtain ⟨⟨t, hlexes⟩, -⟩ := hacc.lexes
  -- the last token before the end mark
  have hlastToken : ∃ as x, ts = as ++ [x] ∧ x.kind = .newline ∧ x.stop = a.toList.length := by
    unfold endsWithLine at hend
    rw [hacc.tokens] at hend
    dsimp only at hend
    rw [List.dropLast_concat] at hend
    cases hx : ts.getLast? with
    | none => rw [hx] at hend; cases hend
    | some x =>
      obtain ⟨as, rfl⟩ := List.getLast?_eq_some_iff.mp hx
      rw [hx, Option.any_some, Bool.and_eq_true, beq_iff_eq, beq_iff_eq] at hend
      exact ⟨as, x, rfl, hend⟩
  obtain ⟨as, x, rfl, hk, hstop⟩ := hlastToken
  have hsep : x.kind.isSeparator = true := by rw [hk]; rfl
  have hlead : leadTokens as x = us := hacc.settled
  have hbalanced : Balanced (leadTokens as x) := hlead ▸ hacc.derives.balanced
  have hgroups : t.groups = [] := by
    rw [hlexes.groups]
    have := groups_settle 0 none (as ++ [x]) []
    rw [hacc.settled, hacc.derives.balanced.groups (by simp)] at this
    exact this.symm
  have hcut : Cutting limit a as x t := ⟨hlexes, hsep, hgroups⟩
  have hpos : t.cursor.pos = a.toList.length := by
    rw [← hlexes.stop (u := x) (by simp), hstop]
  obtain ⟨w, hw⟩ := hcut.lineEnd hk
  have htext : a.toList.reverse = '\n' :: w := by
    have hin := hlexes.cursor_in (Cursor.in_ofText a)
    have htake := hin.take
    rw [hpos, List.take_length] at htake
    rw [htake, List.reverse_reverse, hw]
  have hlastUs : us.getLast? = some x := by
    rw [← hlead, leadTokens, settle_append, settle_cons, keptToken?_separator hsep]
    simp [settle]
  have htokens : (lexFrom limit (lexerOf a)).tokens = as ++ [x] ++ [e] := by
    have := hacc.tokens
    unfold tokenize tokenizeFrom Lexed.toExcept at this
    rw [run_eq_lexFrom] at this
    cases hf : (lexFrom limit (lexerOf a)).fault with
    | none =>
      rw [hf] at this
      exact Except.ok.inj this
    | some fault => rw [hf] at this; cases this
  obtain ⟨hsettle, -⟩ := settle_eof hacc.eof hacc.inner
  have htrivia : (programTree (as ++ [x]) us e ns).trivia = leadComments as x := by
    show (settle 0 none (as ++ [x])).2 ++ us.flatMap Token.snippetComments = _
    rw [← hlead]
  refine ⟨as, x, t, w, hcut, hpos, htext, hbalanced, fun k => ?_, htrivia, ?_⟩
  · rw [hlead]
    exact hacc.derives.series hlastUs hk hlast k
  · refine filter_trivia ?_ hacc.derives ?_ hcut hpos hbalanced
    · rw [htokens, hsettle, hacc.settled]
    · rw [htokens, hsettle]
      rfl

/-! ### The joined text -/

/-- The empty text is a program without statements. -/
lemma parse_empty {limit : Int} {t : Tree} (h : parse "" true limit = .ok t) :
    t.root.children = [] ∧ t.trivia = [] := by
  obtain ⟨ts, us, e, ns, hacc, rfl⟩ := parse_strict_iff.mp h
  obtain ⟨mark, hmark⟩ : ∃ mark, tokenize "" limit = .ok ([] ++ [mark]) := ⟨_, rfl⟩
  obtain ⟨rfl, -⟩ := List.append_inj' (Except.ok.inj (hacc.tokens.symm.trans hmark)) rfl
  obtain rfl : [] = us := hacc.settled
  have hns : ns = [] := by
    cases ns with
    | nil => rfl
    | cons n ns =>
      obtain ⟨us, ws, vs, hnil, -, hn, -⟩ :=
        Derives.split_statements (show Derives _ _ _ _ ([] ++ n :: ns) from hacc.derives)
      obtain ⟨t, ts, rfl, -⟩ := hn.first rfl
      simp at hnil
  exact ⟨hns, rfl⟩

/-- **A text behind a program that ends with a line end is read as it is read alone,
moved.** The program is accepted by a strict reader and its last statement is no `if`,
since a clause could follow. The joined text fails when the second text does, with the
same cause at the moved range. Otherwise its statements are those of the program and
then the moved ones, its errors are the moved ones, and its comments are those of both
in some order. -/
theorem parse_append {a : String} {limit : Int} {lead : Tree} (ha : parse a true limit = .ok lead)
    (hend : a = "" ∨ endsWithLine a limit = true)
    (hlast : ∀ n, lead.root.children.getLast? = some n → n.kind ≠ .ifStatement) (b : String)
    (strict : Bool) :
    Joined (.behind a.toList) lead (parse b strict limit) (parse (a ++ b) strict limit) := by
  rcases hend with rfl | hend
  · obtain ⟨hchildren, htrivia⟩ := parse_empty ha
    have hshift := readFrom_shift (w := []) rfl limit strict (.ofText b)
    have hwhole : parse ("" ++ b) strict limit
        = (readFrom limit strict ((Cursor.ofText b).shift [])).result := by
      have hnil : (Cursor.ofText b).shift [] = .ofText b := by simp [Cursor.shift]
      rw [hnil, String.empty_append]
      rfl
    change ShiftedOutcome _ (parse b strict limit) _ at hshift
    rw [hwhole]
    generalize parse b strict limit = p at hshift ⊢
    generalize (readFrom limit strict ((Cursor.ofText b).shift [])).result = q at hshift ⊢
    cases hshift with
    | error e => exact .error e
    | ok h =>
      refine .ok ?_ h.errors ?_
      · rw [hchildren, h.children]
        rfl
      · rw [htrivia, h.trivia]
        rfl
  · obtain ⟨as, x, t, w, hcut, hpos, htext, hbalanced, hseries, htrivia, hfilter⟩ :=
      exists_lead ha hend hlast
    have hsame : (a ++ b).toList.take t.cursor.pos = a.toList.take t.cursor.pos := by
      rw [hpos, String.toList_append, List.take_left, List.take_length]
    obtain ⟨t', hcut', hpos'⟩ := hcut.carry hsame
    rw [hpos] at hpos'
    have hcomments : (lead.trivia.filter (·.stop ≤ t'.cursor.pos)).Perm (leadComments as x) := by
      rw [hpos', hfilter]
    have hresume := resume_agrees strict hcut' hbalanced (hseries _) hcomments
    have hblank : Scan.endsWithBlank a.toList.reverse = false := by
      rw [htext]
      rfl
    have hshift := readFrom_shift hblank limit strict (.ofText b)
    rw [hpos', cursorAt_append htext] at hresume
    change ShiftedOutcome _ (parse b strict limit) _ at hshift
    generalize (readFrom limit strict ((Cursor.ofText b).shift a.toList)).result = r at hshift hresume
    generalize parse b strict limit = p at hshift ⊢
    generalize parse (a ++ b) strict limit = q at hresume ⊢
    cases hshift with
    | error e =>
      cases hresume with
      | error => exact .error e
    | ok h =>
      cases hresume with
      | ok hagrees =>
        refine .ok ?_ ?_ ?_
        · rw [← hagrees.root, ← h.children]
          rfl
        · rw [← hagrees.errors, ← h.errors]
          rfl
        · refine hagrees.trivia.symm.trans ?_
          show (lead.trivia.filter _ ++ _).Perm _
          rw [hfilter, ← htrivia, h.trivia]

/-- A broken text behind an assignment. -/
theorem parse_append_broken :
    ∃ lead, parse "x = 1\n" true 8 = .ok lead
      ∧ Joined (.behind "x = 1\n".toList) lead (parse "y(;z" false 8)
        (parse ("x = 1\n" ++ "y(;z") false 8) := by
  obtain ⟨lead, h, hkind⟩ := exists_of_map_toOption (show
    (parse "x = 1\n" true 8).toOption.map (·.root.children.getLast?.map (·.kind))
      = some (some .assignment) by decide +kernel)
  refine ⟨lead, h, parse_append h (.inr (by decide +kernel)) (fun n hn => ?_) _ false⟩
  rw [hn, Option.map_some, Option.some.injEq] at hkind
  rw [hkind]
  decide

end StpLang
