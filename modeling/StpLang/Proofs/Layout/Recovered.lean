import StpLang.Proofs.Layout.Lines

/-!
The lines of broken statements.

A statement that could not be read is shown as a comment with the message of its error.
When these comments are comments, the text of a program that was read with recovery has
a line for each statement and each error.

* `Node.Remarked` says that the errors of a subtree can be shown as comments.
* `Derives.entries_simple` looks at a statement without a block.
* `Mends.enters`: what is written for mended statements has their lines.
-/

namespace StpLang

open Source Node Slot

/-- The comments that stand for the errors of a subtree are comments. -/
def Node.Remarked (n : Node) : Prop := ∀ m ∈ n.walk, m.kind = .error → isRemark m.remark = true

/-- What is written for the nodes of a phrase has the lines of their statements. -/
def Phrase.Enters (n : Nat) : Phrase → List Node → Prop
  | .statement _, ns | .statements _ _, ns => ∀ e ∈ ns, e.Enters n
  | .block _, ns => ∀ e ∈ ns, EntersBlock n (Source.statements e.children) e.entries
  | .clauses _ _, ns => EntersClauses n ns
  | _, _ => True

section

variable {n a loops : Nat} {e : Node} {t : Token} {us k : List Token} {ns : List Node}
  {s : String}

lemma Node.remarked_iff (e : Node) :
    e.Remarked ↔ (e.kind = .error → isRemark e.remark = true) ∧ ∀ c ∈ e.children, c.Remarked :=
  e.forall_mem_walk

/-- The nodes of which the node is made have no errors either that are no comments. -/
lemma Node.Remarked.below {kind : Kind} {p : Place} {stop : Nat} {cs : List Node}
    {fields : FieldTable} {value : Option String}
    (h : (spanning kind p stop cs fields value).Remarked) : ∀ c ∈ cs, c.Remarked :=
  ((remarked_iff _).mp h).2

lemma Node.entries_spanning {kind : Kind} {p : Place} {stop : Nat} {cs : List Node}
    {fields : FieldTable} {value : Option String} :
    (spanning kind p stop cs fields value).entries
      = (if kind.isEntry then [spanning kind p stop cs fields value] else [])
        ++ cs.flatMap entries := entries_eq _

/-! ### Lines without a block -/

/-- A comment stands alone on its line. -/
lemma enters_comment (hrun : ∀ sheet, Source.statement e sheet = line s sheet)
    (hs : isRemark s = true) (hentries : e.entries = [e])
    (hshown : ∀ c : Token, c.kind = .comment → c.value = s → e.ShownOn [c]) : e.Enters n := by
  intro sheet
  let c : Token := { kind := .comment, value := s }
  have hspelled : c.Spelled n := spells_comment_iff.mpr hs
  have hwritten : ∀ k, EndsLine k → Written n [c] s.toList k :=
    fun k hk => .one (readsAs_comment hspelled rfl hk)
  have hne : s.toList ≠ [] := by
    rintro hnil
    rw [isRemark, hnil] at hs
    cases hs
  obtain ⟨d, hline, hprints⟩ := prints_line hne (.one rfl rfl .nil) hwritten sheet
  refine ⟨_, d, [c], (hrun sheet).trans hline, hprints, ?_⟩
  rw [hentries]
  simpa using (hshown c rfl rfl).charts (by simp [c]) rfl charts_nil (.inl rfl)

/-- An error is shown as a comment, if it can be. -/
lemma enters_error {p : Place} {stop : Nat} (h : isRemark ("# error: " ++ s) = true) :
    (spanning .error p stop [] [] (some s)).Enters n :=
  enters_comment (run_error (has_spanning rfl)) h rfl fun c hc hv => ⟨c, rfl, hc, hv⟩

/-- A statement that begins with a comment is that comment. -/
lemma Derives.comment_inv (h : Derives a (.statement loops) us k [e])
    (hk : headKind us = .comment) : ∃ t, us = [t] ∧ e = .leaf .comment t := by
  cases h with
  | comment => exact ⟨_, rfl, rfl⟩
  | loopControl ht => rcases ht with ht | ht <;> rw [headKind_cons, ht] at hk <;> cases hk
  | expressionStatement h =>
    obtain ⟨t, ts, rfl, ht⟩ := h.first rfl
    rw [List.cons_append, headKind_cons] at hk
    rw [hk] at ht
    cases ht
  | exit ht | symbolDeclaration ht | importStatement ht | returnStatement ht | assignment ht
  | ifStatement ht | whileLoop ht | forLoop ht | functionDefinition ht =>
    rw [headKind_cons, ht] at hk
    cases hk

/-- A statement without a block that is no comment is the only statement in it, and
begins with the word for its kind. -/
lemma Derives.entries_simple (h : Derives a (.statement loops) us k [e])
    (hs : ∀ u ∈ us, u.Spelled n) (hopen : (headKind us).opensBlock = false)
    (hcomment : headKind us ≠ .comment) (hf : e.Formed) :
    e.entries = [e] ∧ e.kind ≠ .comment ∧ e.kind ≠ .error
      ∧ ∀ word, e.kind.keyword? = some word → headKind us = word := by
  have hshape {kind : Kind} (hk : e.kind = kind) (hbelow : e.children.flatMap entries = [])
      (hclass : (kind.isEntry && kind != .comment && kind != .error) = true)
      (hword : ∀ word, kind.keyword? = some word → headKind us = word) :
      e.entries = [e] ∧ e.kind ≠ .comment ∧ e.kind ≠ .error
        ∧ ∀ word, e.kind.keyword? = some word → headKind us = word := by
    subst hk
    simp only [Bool.and_eq_true, bne_iff_ne] at hclass
    exact ⟨by rw [entries_eq, if_pos hclass.1.1, hbelow, List.append_nil], hclass.1.2, hclass.2,
      hword⟩
  cases h with
  | comment ht => exact absurd ht hcomment
  | exit ht => exact hshape rfl rfl rfl fun word hw => ht.trans (Option.some.inj hw)
  | loopControl ht =>
    rw [List.forall_mem_singleton] at hs
    rcases ht with ht | ht
    · rw [hs.spelling (show _ = some "break" by rw [ht]; rfl)] at hshape ⊢
      exact hshape rfl rfl rfl fun word hw => ht.trans (Option.some.inj hw)
    · rw [hs.spelling (show _ = some "cont" by rw [ht]; rfl)] at hshape ⊢
      exact hshape rfl rfl rfl fun word hw => ht.trans (Option.some.inj hw)
  | symbolDeclaration ht | importStatement ht | returnStatement ht =>
    exact hshape rfl (hf.entries_below rfl) rfl fun word hw => ht.trans (Option.some.inj hw)
  | assignment | expressionStatement =>
    exact hshape rfl (hf.entries_below rfl) rfl fun word hw => nomatch hw
  | ifStatement ht | whileLoop ht | forLoop ht | functionDefinition ht =>
    rw [headKind_cons, ht] at hopen
    cases hopen

/-- A statement without a block is shown on one line. -/
lemma Derives.enters_simple (h : Derives a (.statement loops) us k [e])
    (hs : ∀ u ∈ us, u.Spelled n) (hopen : (headKind us).opensBlock = false) (hf : e.Formed) :
    e.Enters n := by
  by_cases hcomment : headKind us = .comment
  · obtain ⟨t, rfl, rfl⟩ := h.comment_inv hcomment
    have hspelled : t.Spelled n := hs t List.mem_cons_self
    rw [Token.Spelled, show t.kind = .comment from hcomment] at hspelled
    exact enters_comment (run_comment (has_leaf rfl)) hspelled.isRemark rfl
      fun c hc hv => ⟨c, rfl, hc, congrArg some hv.symm⟩
  · obtain ⟨hentries, hplain, hread, hword⟩ := h.entries_simple hs hopen hcomment hf
    obtain ⟨text, hrun, hne, hputs⟩ := h.oneLine hs hopen hcomment
    obtain ⟨t, ts, rfl, ht⟩ := h.first rfl
    have hkind : t.kind.isSeparator = false ∧ t.kind ≠ .rightBrace ∧ t.kind ≠ .eof := by
      generalize t.kind = kind at ht
      cases kind <;> first | exact ⟨rfl, by decide, by decide⟩ | cases ht
    obtain ⟨xs, hb, hl, hw⟩ := hputs.written hkind.1
    intro sheet
    obtain ⟨d, hline, hprints⟩ := prints_line hne hb hw sheet
    refine ⟨_, d, _, (hrun sheet).trans hline, hprints.mono fun _ hk => hk.endsToken, ?_⟩
    have hshown : e.ShownOn (t :: xs) := shownOn_cons rfl hplain hread hword hl
    have hopens : Token.opensEntry (t :: xs) = true := by
      simp [Token.opensEntry, hkind.2.1, hkind.2.2]
    rw [hentries]
    simpa using hshown.charts (fun u hu => (ne_of_endsLine (hl u hu)).1) hopens charts_nil
      (.inl rfl)

/-! ### Statements with blocks -/

/-- The end mark is no part of a phrase, only of what is broken. -/
lemma Derives.spelled {p : Phrase} (h : Derives a p us k ns)
    (hs : ∀ u ∈ us, u.kind ≠ .eof → u.Spelled n) : ∀ u ∈ us, u.Spelled n :=
  fun u hu => hs u hu (h.balanced.ne_eof u hu)

/-- What is written for the nodes of mended phrases has the lines of their statements, as
long as the comments for errors are comments. -/
theorem Mends.enters {p : Phrase} (h : Mends a p us k ns)
    (hs : ∀ u ∈ us, u.kind ≠ .eof → u.Spelled n) (hf : ∀ e ∈ ns, e.Formed)
    (hr : ∀ e ∈ ns, e.Remarked) : p.Enters n ns := by
  -- the induction is on what was read; each statement with a block hands its line on to
  -- the lines of the block
  induction h with
  | simple h hopen =>
    rw [List.forall_mem_singleton] at hf
    exact List.forall_mem_singleton.mpr (h.enters_simple (h.spelled hs) hopen hf)
  | ifStatement ht h _ _ ihb ihc =>
    simp only [List.forall_mem_cons, List.forall_mem_append] at hs
    obtain ⟨hts, hcond, hbody, hclauses⟩ := hs
    rw [List.forall_mem_singleton] at hf hr
    obtain ⟨hparts, hcs⟩ := hf.fills
    simp only [Kind.parts, fill_one_cons, Bool.and_eq_true] at hparts
    have hbelow := hr.below
    simp only [List.forall_mem_cons] at hcs hbelow
    obtain ⟨text, htext, hheader⟩ := h.headed (h.spelled hcond) (hts (by rw [ht]; decide)) ht
      (by decide) "if " ⟨rfl, rfl⟩
    have hblock := ihb hbody (List.forall_mem_singleton.mpr hcs.2.1)
      (List.forall_mem_singleton.mpr hbelow.2.1) _ List.mem_cons_self
    refine List.forall_mem_singleton.mpr (hblock.choice (ihc hclauses hcs.2.2 hbelow.2.2)
      (run_ifStatement (has_spanning rfl) htext) rfl (by rw [ht]; rfl) hheader (by simp) ?_)
    rw [entries_spanning, List.flatMap_cons, hcs.1.entries_expression hparts.1]
    rfl
  | whileLoop ht h _ ihb =>
    simp only [List.forall_mem_cons, List.forall_mem_append] at hs
    obtain ⟨hts, hcond, hbody⟩ := hs
    rw [List.forall_mem_singleton] at hf hr
    obtain ⟨hparts, hcs⟩ := hf.fills
    simp only [Kind.parts, fill_one_cons, Bool.and_eq_true] at hparts
    have hbelow := hr.below
    simp only [List.forall_mem_cons] at hcs hbelow
    obtain ⟨text, htext, hheader⟩ := h.headed (h.spelled hcond) (hts (by rw [ht]; decide)) ht
      (by decide) "while " ⟨rfl, rfl⟩
    have hblock := ihb hbody (List.forall_mem_singleton.mpr hcs.2.1)
      (List.forall_mem_singleton.mpr hbelow.2.1) _ List.mem_cons_self
    refine List.forall_mem_singleton.mpr (hblock.statement
      (run_whileLoop (has_spanning rfl) htext) rfl (by rw [ht]; rfl) hheader (by simp) ?_)
    simp [entries_spanning, hcs.1.entries_expression hparts.1, Kind.isEntry, Kind.isStatement]
  | @forLoop _ _ t x i ts us _ _ _ ht hx hi h _ ihb =>
    rw [show t :: x :: i :: (ts ++ us) = [t, x, i] ++ (ts ++ us) from rfl,
      List.forall_mem_append, List.forall_mem_append] at hs
    obtain ⟨hwords, hexpr, hbody⟩ := hs
    rw [List.forall_mem_singleton] at hf hr
    obtain ⟨hparts, hcs⟩ := hf.fills
    simp only [Kind.parts, fill_one_cons, Bool.and_eq_true] at hparts
    have hbelow := hr.below
    simp only [List.forall_mem_cons] at hcs hbelow
    have hplain : ∀ u ∈ [t, x, i], u.Spelled n := fun u hu => hwords u hu (by
      simp only [List.mem_cons, List.not_mem_nil, or_false] at hu
      rcases hu with rfl | rfl | rfl <;> simp [ht, hx, hi])
    obtain ⟨text, htext, hheader⟩ :=
      puts_forHeader (h.relays (h.spelled hexpr) _ List.mem_cons_self) hplain ht hx hi
    have hblock := ihb hbody (List.forall_mem_singleton.mpr hcs.2.2.1)
      (List.forall_mem_singleton.mpr hbelow.2.2.1) _ List.mem_cons_self
    refine List.forall_mem_singleton.mpr (hblock.statement
      (run_forLoop (has_spanning rfl) (expression_identifier _) htext) rfl (by rw [ht]; rfl)
      hheader (by simp) ?_)
    have hname : (leaf .identifier x).entries = [] := rfl
    simp [entries_spanning, hname, hcs.2.1.entries_expression hparts.2.1, Kind.isEntry,
      Kind.isStatement]
  | @functionDefinition _ _ t x o c ls us vs ws _ _ _ _ ht hx ho hl hp hy hc _ ihb =>
    rw [show t :: x :: o :: (ls ++ (us ++ (vs ++ c :: ws)))
      = (t :: x :: o :: (ls ++ (us ++ (vs ++ [c])))) ++ ws by simp, List.forall_mem_append] at hs
    rw [List.forall_mem_singleton] at hf hr
    obtain ⟨-, hcs⟩ := hf.fills
    have hbelow := hr.below
    simp only [List.forall_mem_cons] at hcs hbelow
    have hbalanced : Balanced (t :: x :: o :: (ls ++ (us ++ (vs ++ [c])))) := by
      have hparens := Balanced.parens ho hc (hl.balanced.append (hp.balanced.append hy.balanced))
      exact .one ht rfl (.one hx rfl (by simpa using hparens))
    obtain ⟨ss, rs, hss, hrs, hheader⟩ := puts_functionHeader
      (fun u hu => hs.1 u hu (hbalanced.ne_eof u hu)) ht hx ho hl hp hy hc
    have hblock := ihb hs.2 (List.forall_mem_singleton.mpr hcs.2.2.2.1)
      (List.forall_mem_singleton.mpr hbelow.2.2.2.1) _ List.mem_cons_self
    refine List.forall_mem_singleton.mpr (hblock.statement
      (run_functionDefinition (has_spanning rfl) (expression_identifier _) hss hrs) rfl
      (by rw [ht]; rfl) hheader (by simp) ?_)
    have hname : (leaf .identifier x).entries = [] := rfl
    simp [entries_spanning, hname, hcs.2.1.entries_of_isInert rfl rfl,
      hcs.2.2.1.entries_of_isInert rfl rfl, Kind.isEntry, Kind.isStatement]
  | block _ _ _ ih =>
    simp only [List.forall_mem_cons, List.forall_mem_append] at hs
    rw [List.forall_mem_singleton] at hf hr
    refine List.forall_mem_singleton.mpr ?_
    rw [entries_spanning]
    exact (enters_statements (ih hs.2.1 hf.fills.2 hr.below)).closing
  | clausesEnd =>
    -- the brace that closes the last block ends its line
    refine fun sheet _ => ⟨sheet, [], [], run_clauses_nil sheet, .refl sheet, .inl rfl, ?_⟩
    exact Charts.behind (l := []) rfl (by simp) charts_nil (.inl rfl)
  | clausesElseif _ ht h _ _ ihb ihc =>
    simp only [List.forall_mem_cons, List.forall_mem_append] at hs
    obtain ⟨-, hts, hcond, hbody, hclauses⟩ := hs
    rw [List.forall_mem_cons] at hf hr
    obtain ⟨hparts, hcs⟩ := hf.1.fills
    simp only [Kind.parts, fill_one_cons, Bool.and_eq_true] at hparts
    have hbelow := hr.1.below
    simp only [List.forall_mem_cons] at hcs hbelow
    obtain ⟨text, htext, hheader⟩ := h.headed (h.spelled hcond) (hts (by rw [ht]; decide)) ht
      (by decide) "elseif " ⟨rfl, rfl⟩
    have hblock := ihb hbody (List.forall_mem_singleton.mpr hcs.2.1)
      (List.forall_mem_singleton.mpr hbelow.2.1) _ List.mem_cons_self
    refine hblock.clause (run_elseif (has_spanning rfl) htext) hheader (by simp)
      (by rw [ht]; rfl) ?_ (ihc hclauses hf.2 hr.2)
    simp [entries_spanning, hcs.1.entries_expression hparts.1, Kind.isEntry, Kind.isStatement]
  | clausesElse _ ht _ _ ihb ihc =>
    simp only [List.forall_mem_cons, List.forall_mem_append] at hs
    obtain ⟨-, hts, hbody, hclauses⟩ := hs
    rw [List.forall_mem_cons] at hf hr
    have hheader : Puts n none _ "else".toList :=
      puts_one (hts (by rw [ht]; decide)) ht rfl (by decide)
    have hblock := ihb hbody hf.1.fills.2 hr.1.below _ List.mem_cons_self
    refine hblock.clause (run_else (has_spanning rfl)) hheader (by decide) (by rw [ht]; rfl) ?_
      (ihc hclauses hf.2 hr.2)
    simp [entries_spanning, Kind.isEntry, Kind.isStatement]
  | statementsEnd => exact fun _ h => absurd h List.not_mem_nil
  | statementsSeparator _ _ ih => exact ih (List.forall_mem_cons.mp hs).2 hf hr
  | statementsMore _ _ ih ihs =>
    rw [List.forall_mem_append] at hs
    rw [List.forall_mem_cons] at hf hr
    exact List.forall_mem_cons.mpr ⟨ih hs.1 (List.forall_mem_singleton.mpr hf.1)
      (List.forall_mem_singleton.mpr hr.1) _ List.mem_cons_self, ihs hs.2 hf.2 hr.2⟩
  | statementsBroken _ ihs =>
    rw [List.forall_mem_append] at hs
    rw [List.forall_mem_cons] at hf hr
    exact List.forall_mem_cons.mpr
      ⟨enters_error (((remarked_iff _).mp hr.1).1 rfl), ihs hs.2 hf.2 hr.2⟩

end

end StpLang
