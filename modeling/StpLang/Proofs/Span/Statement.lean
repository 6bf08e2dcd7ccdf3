import StpLang.Proofs.Grammar.Mends
import StpLang.Proofs.Span.Row

/-!
Statements in rows.

Statements stand in a row, broken ones included. A statement reaches from its
first token to its last one, so every token that separates no statements lies
within one.

* `Derives.place`: an expression starts with its first token.
* `Mends.reach`: a statement reaches from its first token to its last.
* `Mends.row`: the nodes of mended statements stand in a row.
* `Mends.covers`: every other token is a separator.
-/

namespace StpLang

open Grammar

section

variable {cs : List Char} {a loops lo hi : Nat} {p : Phrase} {t : Token} {ts k : List Token}
  {n : Node} {ns : List Node}

/-! ### The reach of a statement -/

/-- Where the node of a phrase starts: with the operand that it goes on from, or
with its first token. -/
def Phrase.place? (ts : List Token) : Phrase → Option Place
  | .operators _ _ lhs | .suffixes lhs => some lhs.place
  | .expression .. | .unary _ | .primary _ | .name _ => ts.head?.map (·.place)
  | _ => none

/-- An expression starts with its first token. -/
lemma Derives.place {place : Place} (h : Derives a p ts k ns) (hp : p.place? ts = some place) :
    ∀ n ∈ ns, n.place = place := by
  induction h generalizing place with
  | expression hl _ ihl iho =>
    obtain ⟨x, xs, rfl, -⟩ := hl.first rfl
    cases hp
    intro n hn
    rw [iho rfl n hn]
    exact ihl rfl _ (List.mem_singleton_self _)
  | unaryPlain hl _ ihl iho =>
    obtain ⟨x, xs, rfl, -⟩ := hl.first rfl
    cases hp
    intro n hn
    rw [iho rfl n hn]
    exact ihl rfl _ (List.mem_singleton_self _)
  | operatorsMore _ _ _ _ _ _ ih | suffixesMore _ _ _ ih =>
    cases hp
    exact ih rfl
  | plainName _ _ ih => exact ih hp
  | @call _ _ _ _ _ _ _ _ n _ _ hn _ _ _ _ ih =>
    obtain ⟨x, xs, rfl, -⟩ := hn.first rfl
    cases hp
    rw [List.forall_mem_singleton]
    exact ih rfl n (List.mem_singleton_self n)
  | operatorsEnd | suffixesEnd | unaryPrefix | matrix | bracketed | rangeOfTwo | rangeOfThree
  | number | percentage | string | name =>
    cases hp
    exact List.forall_mem_singleton.mpr rfl
  | _ => cases hp

/-- A statement that opens no block reaches from its first token to its last. -/
lemma Derives.reach (h : Derives a (.statement loops) ts k [n])
    (hk : (headKind ts).opensBlock = false) :
    ∃ t us, ts = t :: us ∧ n.start = t.start ∧ n.stop = lastStop ts := by
  cases h with
  | comment | exit | loopControl | symbolDeclaration => exact ⟨_, _, rfl, rfl, rfl⟩
  | importStatement _ hd | returnStatement _ hd =>
    obtain ⟨x, xs, rfl, -⟩ := hd.first rfl
    exact ⟨_, _, rfl, rfl, (lastStop_cons (List.cons_ne_nil _ _)).symm⟩
  | assignment _ _ hd _ =>
    refine ⟨_, _, rfl, rfl, ?_⟩
    rw [lastStop_cons (List.cons_ne_nil _ _), lastStop_cons (by simp [hd.ne_nil])]
    rfl
  | expressionStatement hd _ _ =>
    obtain ⟨x, xs, rfl, -⟩ := hd.first rfl
    have hplace := hd.place rfl _ (List.mem_singleton_self _)
    exact ⟨x, _, rfl, congrArg Place.start hplace, rfl⟩
  | ifStatement ht | whileLoop ht | forLoop ht | functionDefinition ht =>
    rw [headKind_cons, ht] at hk
    cases hk

/-- A statement reaches from its first token to its last. -/
lemma Mends.reach (h : Mends a (.statement loops) ts k [n]) :
    ∃ t us, ts = t :: us ∧ n.start = t.start ∧ n.stop = lastStop ts := by
  cases h with
  | simple h hk => exact h.reach hk
  | @ifStatement _ _ _ _ us vs _ _ _ _ _ _ hb _ =>
    have hne : us ++ vs ≠ [] := by simp [hb.block_ne_nil]
    refine ⟨_, _, rfl, rfl, ?_⟩
    rw [lastStop_cons (by simp [hb.block_ne_nil]), lastStop_append hne]
    rfl
  | whileLoop _ _ hb =>
    refine ⟨_, _, rfl, rfl, ?_⟩
    rw [lastStop_cons (by simp [hb.block_ne_nil]), lastStop_append hb.block_ne_nil]
    rfl
  | forLoop _ _ _ _ hb =>
    refine ⟨_, _, rfl, rfl, ?_⟩
    rw [lastStop_cons (List.cons_ne_nil _ _), lastStop_cons (List.cons_ne_nil _ _),
      lastStop_cons (by simp [hb.block_ne_nil]), lastStop_append hb.block_ne_nil]
    rfl
  | @functionDefinition _ _ t x opener closer ls us vs ws _ _ _ _ _ _ _ _ _ _ _ hb =>
    have heq : t :: x :: opener :: (ls ++ (us ++ (vs ++ closer :: ws)))
        = (t :: x :: opener :: (ls ++ (us ++ (vs ++ [closer])))) ++ ws := by simp
    refine ⟨_, _, rfl, rfl, ?_⟩
    rw [heq, lastStop_append hb.block_ne_nil]
    rfl

lemma Mends.stop (h : Mends a (.statement loops) ts k [n]) : n.stop = lastStop ts := by
  obtain ⟨_, _, -, -, hstop⟩ := h.reach
  exact hstop

/-! ### Rows of statements -/

/-- The node of a word and of what follows it up to the last token. -/
lemma Laid.headed {kind : Kind} {stop : Nat} {fields : FieldTable} {value : Option String}
    (h : Laid cs lo (t :: ts) hi) (hlast : stop = lastStop (t :: ts))
    (hrow : Row cs t.start ns hi) (ht : kind.showsText = false := by rfl) :
    Row cs lo [.spanning kind t.place stop ns fields value] hi := by
  have hstop := h.lastStop_eq (List.cons_ne_nil t ts)
  obtain ⟨h1, h2, hmore⟩ := h.uncons
  rw [hlast, hstop]
  exact Row.spanning (p := t.place) hrow (hmore.inside h2.inside) h2.named h1 (Nat.le_refl _) ht

/-- A statement that opens no block stands in a row. -/
lemma Derives.statement_row (h : Derives a (.statement loops) ts k [n])
    (hk : (headKind ts).opensBlock = false) (hl : Laid cs lo ts hi) : Row cs lo [n] hi := by
  have hstop := (Mends.simple h hk).stop
  cases h with
  | comment ht =>
    obtain ⟨h1, h2, h⟩ := hl.uncons
    exact .cons h1 (h2.leaf (iff_of_true rfl ht)) (.nil h.le)
  | exit ht =>
    obtain ⟨h1, h2, h⟩ := hl.uncons
    exact .cons h1 (h2.leaf_of_kind ht) (.nil h.le)
  | @loopControl _ _ t _ ht _ =>
    obtain ⟨h1, h2, h⟩ := hl.uncons
    have hne : t.kind ≠ .eof ∧ t.kind ≠ .comment := by
      rcases ht with ht | ht <;> rw [ht] <;> decide
    obtain ⟨m, hm⟩ := h2.spelled hne.1
    have hname : Kind.ofName t.value ≠ .comment := by
      rcases ht with ht | ht <;> rw [hm.spelling (by rw [ht]; rfl)] <;> decide
    exact .cons h1 (h2.leaf (iff_of_false hname hne.2)) (.nil h.le)
  | symbolDeclaration _ hx =>
    obtain ⟨-, h2, h⟩ := hl.uncons
    obtain ⟨hx1, hx2, h⟩ := h.uncons
    exact hl.headed hstop (.cons (Nat.le_trans h2.order hx1) (hx2.leaf_of_kind hx) (.nil h.le))
  | importStatement _ hd | returnStatement _ hd =>
    obtain ⟨-, h2, h⟩ := hl.uncons
    exact hl.headed hstop ((hd.row _ hi h).from_le h2.order)
  | assignment hx _ hd _ =>
    obtain ⟨hx1, hx2, h⟩ := hl.uncons
    obtain ⟨he1, he2, h⟩ := h.uncons
    obtain ⟨mid, hts, hms⟩ := h.split
    have hrow := (hd.row _ mid hts).to_le hms.le
    exact hl.headed hstop (.cons (Nat.le_refl _) (hx2.leaf_of_kind hx)
      (hrow.from_le (Nat.le_trans he1 he2.order)))
  | @expressionStatement _ _ ts ms _ n _ hd _ _ =>
    have hlast := hl.lastStop_eq (by simp [hd.ne_nil])
    obtain ⟨mid, hts, hms⟩ := hl.split
    obtain ⟨h1, h2, h3⟩ := Row.singleton_iff.mp (hd.row lo mid hts)
    obtain ⟨x, xs, rfl, -⟩ := hd.first rfl
    have hin := hms.inside (hts.uncons.2.2.inside hts.uncons.2.1.inside)
    rw [hlast]
    exact Row.spanning (p := n.place)
      (Row.singleton_iff.mpr ⟨Nat.le_refl _, h2, Nat.le_trans h3 hms.le⟩) hin h2.named h1
      (Nat.le_refl _)
  | ifStatement ht | whileLoop ht | forLoop ht | functionDefinition ht =>
    rw [headKind_cons, ht] at hk
    cases hk

/-- Statements stand in a row, broken ones included. -/
lemma Mends.row (h : Mends a p ts k ns) : ∀ lo hi, Laid cs lo ts hi → Row cs lo ns hi := by
  induction h with
  | simple h hk => exact fun lo hi hl => h.statement_row hk hl
  | ifStatement ht hd hb hc ihb ihc =>
    intro lo hi hl
    obtain ⟨-, h2, h⟩ := hl.uncons
    obtain ⟨m1, hts, h⟩ := h.split
    obtain ⟨m2, hus, hvs⟩ := h.split
    have hrow := (hd.row _ m1 hts).append ((ihb m1 m2 hus).append (ihc m2 hi hvs))
    exact hl.headed (Mends.ifStatement ht hd hb hc).stop (hrow.from_le h2.order)
  | whileLoop ht hd hb ihb =>
    intro lo hi hl
    obtain ⟨-, h2, h⟩ := hl.uncons
    obtain ⟨m1, hts, hus⟩ := h.split
    have hrow := (hd.row _ m1 hts).append (ihb m1 hi hus)
    exact hl.headed (Mends.whileLoop ht hd hb).stop (hrow.from_le h2.order)
  | forLoop ht hx hin hd hb ihb =>
    intro lo hi hl
    obtain ⟨-, h2, h⟩ := hl.uncons
    obtain ⟨hx1, hx2, h⟩ := h.uncons
    obtain ⟨hi1, hi2, h⟩ := h.uncons
    obtain ⟨m1, hts, hus⟩ := h.split
    have hrow := (hd.row _ m1 hts).append (ihb m1 hi hus)
    exact hl.headed (Mends.forLoop ht hx hin hd hb).stop
      (.cons (Nat.le_trans h2.order hx1) (hx2.leaf_of_kind hx)
        (hrow.from_le (Nat.le_trans hi1 hi2.order)))
  | @functionDefinition _ loops _ _ _ _ _ _ _ _ _ _ _ body ht hx ho hc hp hy hr hb ihb =>
    intro lo hi hl
    obtain ⟨-, h2, h⟩ := hl.uncons
    obtain ⟨hx1, hx2, h⟩ := h.uncons
    obtain ⟨hws, -, hargs⟩ := h.arguments hp.row hy.row
    have hstop := (@Mends.functionDefinition _ loops _ _ _ _ _ _ _ _ _ _ _ _ ht hx ho hc hp hy hr
      hb).stop
    exact hl.headed hstop (.cons (Nat.le_trans h2.order hx1) (hx2.leaf_of_kind hx)
      (hargs [body] hi (ihb _ hi hws)))
  | block _ _ _ ih => exact fun lo hi hl => hl.enclosed fun mid => ih _ mid
  | clausesEnd => exact fun lo hi hl => .nil hl.le
  | @clausesElseif _ _ t ls ts us vs _ n body ns _ _ hd hb _ ihb ihc =>
    intro lo hi hl
    obtain ⟨m0, hls, h⟩ := hl.split
    have h : Laid cs m0 ((t :: (ts ++ us)) ++ vs) hi := by
      rwa [List.cons_append, List.append_assoc]
    obtain ⟨m2, hclause, hvs⟩ := h.split
    obtain ⟨-, h2, h⟩ := hclause.uncons
    obtain ⟨m1, hts, hus⟩ := h.split
    have hrow := (hd.row _ m1 hts).append (ihb m1 m2 hus)
    refine Row.append ((hclause.headed ?_ (hrow.from_le h2.order)).from_le hls.le) (ihc m2 hi hvs)
    rw [lastStop_cons (by simp [hb.block_ne_nil]), lastStop_append hb.block_ne_nil]
  | @clausesElse _ _ t ls us vs _ body ns _ _ hb _ ihb ihc =>
    intro lo hi hl
    obtain ⟨m0, hls, h⟩ := hl.split
    have h : Laid cs m0 ((t :: us) ++ vs) hi := h
    obtain ⟨m2, hclause, hvs⟩ := h.split
    obtain ⟨-, h2, hus⟩ := hclause.uncons
    refine Row.append ((hclause.headed ?_ ((ihb _ m2 hus).from_le h2.order)).from_le hls.le)
      (ihc m2 hi hvs)
    rw [lastStop_cons hb.block_ne_nil]
  | statementsEnd => exact fun lo hi hl => .nil hl.le
  | statementsSeparator _ _ ih =>
    intro lo hi hl
    obtain ⟨h1, h2, h⟩ := hl.uncons
    exact (ih _ hi h).from_le (Nat.le_trans h1 h2.order)
  | statementsMore _ _ ih ihs =>
    intro lo hi hl
    obtain ⟨mid, hts, hus⟩ := hl.split
    exact (ih lo mid hts).append (ihs mid hi hus)
  | @statementsBroken _ _ _ first more us _ message ns _ ihs =>
    intro lo hi hl
    obtain ⟨mid, hts, hus⟩ := hl.split
    have hstop := hts.lastStop_eq (List.cons_ne_nil _ _)
    obtain ⟨h1, h2, h⟩ := hts.uncons
    have hmax : max (lastStop (first :: more)) first.stop = mid := by
      rw [hstop]
      exact Nat.max_eq_left h.le
    have hrow : Row cs lo [brokenNode first more message] mid := by
      rw [brokenNode, hmax]
      exact Row.spanning (p := first.place) (.nil (Nat.le_trans h2.order h.le)) (h.inside h2.inside)
        h2.named h1 (Nat.le_refl _)
    exact hrow.append (ihs mid hi hus)

/-- Every token of a sequence of statements separates them or lies within one. -/
lemma Mends.covers {inBlock : Bool} (h : Mends a (.statements loops inBlock) ts k ns)
    (hl : Laid cs lo ts hi) :
    ∀ t ∈ ts, t.kind.isSeparator = true ∨ ∃ n ∈ ns, n.start ≤ t.start ∧ t.stop ≤ n.stop := by
  generalize hp : Phrase.statements loops inBlock = p at h
  induction h generalizing lo with
  | statementsEnd => simp
  | statementsSeparator ht _ ih =>
    exact List.forall_mem_cons.mpr ⟨.inl ht, ih hl.uncons.2.2 hp⟩
  | @statementsMore _ _ _ ts us _ n ns h _ _ ihs =>
    obtain ⟨mid, hts, hus⟩ := hl.split
    obtain ⟨x, xs, rfl, hstart, hstop⟩ := h.reach
    rw [hts.lastStop_eq (List.cons_ne_nil _ _)] at hstop
    refine List.forall_mem_append.mpr ⟨fun t ht => .inr ⟨n, List.mem_cons_self, ?_⟩,
      fun t ht => (ihs hus hp t ht).imp_right ?_⟩
    · obtain ⟨-, h1, h2⟩ := hts.from_start.mem ht
      exact ⟨hstart ▸ h1, hstop ▸ h2⟩
    · rintro ⟨m, hm, h⟩
      exact ⟨m, List.mem_cons_of_mem _ hm, h⟩
  | @statementsBroken _ _ _ first more us _ message ns _ ihs =>
    obtain ⟨mid, hts, hus⟩ := hl.split
    have hstop := hts.lastStop_eq (List.cons_ne_nil _ _)
    refine List.forall_mem_append.mpr ⟨fun t ht => .inr ⟨_, List.mem_cons_self, ?_⟩,
      fun t ht => (ihs hus hp t ht).imp_right ?_⟩
    · obtain ⟨-, h1, h2⟩ := hts.from_start.mem ht
      refine ⟨h1, Nat.le_trans h2 ?_⟩
      rw [← hstop]
      exact Nat.le_max_left _ _
    · rintro ⟨m, hm, h⟩
      exact ⟨m, List.mem_cons_of_mem _ hm, h⟩
  | _ => cases hp

end

end StpLang
