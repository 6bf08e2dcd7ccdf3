import StpLang.Proofs.Render.Source
import StpLang.Render

/-!
Every tree that obeys the schema can be shown.

The schema gives each kind of node the children that its text needs. So expressions
have a text and statements can be written, by induction on the number of levels, also
where errors stand among the statements.

* `Node.Formed.legible` is the result for expressions.
* `Writable` says that a step of writing succeeds on every sheet, and
  `Node.Formed.writable` is the result for statements.
* `Target.render_ok` is the result for trees, in every form.
-/

namespace StpLang

open Slot Source

/-! ### Expressions -/

/-- The node has a text as an expression. -/
def Node.Legible (n : Node) : Prop := ∃ s, expression n = .ok s

/-- The expressions below a number of levels have texts. -/
def LegibleBelow (h : Nat) : Prop :=
  ∀ x : Node, x.Formed → x.kind.isExpression = true → x.height < h → x.Legible

section

variable {e x : Node} {ns : List Node} {kind : Kind} {m : Nat}

lemma exists_texts (h : ∀ x ∈ ns, x.Legible) : ∃ ss, texts ns = .ok ss := by
  induction ns with
  | nil => exact ⟨[], texts_nil⟩
  | cons x ns ih =>
    rw [List.forall_mem_cons] at h
    obtain ⟨s, hs⟩ := h.1
    obtain ⟨ss, hss⟩ := ih h.2
    exact ⟨s :: ss, texts_cons hs hss⟩

lemma exists_rowTexts (h : ∀ x ∈ ns, ∃ ss, texts x.children = .ok ss) :
    ∃ rs, rowTexts ns = .ok rs := by
  induction ns with
  | nil => exact ⟨[], rowTexts_nil⟩
  | cons x ns ih =>
    rw [List.forall_mem_cons] at h
    obtain ⟨ss, hss⟩ := h.1
    obtain ⟨rs, hrs⟩ := ih h.2
    exact ⟨_, rowTexts_cons hss hrs⟩

namespace Node.Formed

lemma obeys (h : e.Formed) : e.Obeys := (formed_iff.mp h).1

lemma child (h : e.Formed) (hx : x ∈ e.children) : x.Formed := (formed_iff.mp h).2 x hx

lemma parts (h : e.Formed) (hk : e.kind = kind) : fill kind.parts e.children = true :=
  hk ▸ h.obeys.parts

/-- An expression below a node has a text. -/
lemma legible_child (h : e.Formed) (hb : LegibleBelow m) (hm : e.height ≤ m)
    (hx : x ∈ e.children) (hk : x.kind.isExpression = true) : x.Legible :=
  hb x (h.child hx) hk (Nat.lt_of_lt_of_le (height_lt_of_mem hx) hm)

lemma legible_word (h : e.Formed) (hk : e.kind = kind)
    (hw : kind = .identifier ∨ kind = .number ∨ kind = .percentage) : e.Legible := by
  obtain ⟨w, he⟩ := h.obeys.has_word hk (by rcases hw with rfl | rfl | rfl <;> rfl)
  exact ⟨w, expression_value he (hw.imp_right .inr)⟩

lemma legible_name (h : e.Formed) (hk : e.kind = .memberAccess) : e.Legible := by
  have hword := h.obeys.text
  rw [worded, hk] at hword
  have he := h.obeys.has hk
  rw [eq_of_beq hword] at he
  exact ⟨_, expression_value he (.inr (.inl rfl))⟩

/-- A child that is an operator shows how it is spelled. -/
lemma exists_operator (h : e.Formed) (hx : x ∈ e.children) (hk : Node.is .operator x = true) :
    ∃ op, x.value = some op := by
  obtain ⟨op, hop⟩ := (h.child hx).obeys.has_word (is_iff.mp hk) rfl
  exact ⟨op, hop.value⟩

lemma legible_binary (h : e.Formed) (hk : e.kind = .binary) (hb : LegibleBelow e.height) :
    e.Legible := by
  have he := h.obeys.has_none hk rfl
  obtain ⟨l, _, hcs, hl, hparts⟩ := fill_one_inv (h.parts hk)
  obtain ⟨o, _, rfl, ho, hparts⟩ := fill_one_inv hparts
  obtain ⟨r, _, rfl, hr, hparts⟩ := fill_one_inv hparts
  obtain rfl := fill_nil_inv hparts
  obtain ⟨s, hs⟩ := h.legible_child hb (Nat.le_refl _) (by rw [hcs]; simp) hl
  obtain ⟨op, hop⟩ := h.exists_operator (x := o) (by rw [hcs]; simp) ho
  obtain ⟨s', hs'⟩ := h.legible_child hb (Nat.le_refl _) (x := r) (by rw [hcs]; simp) hr
  exact ⟨_, (hcs ▸ he).expression_binary hs hop hs'⟩

lemma legible_unary (h : e.Formed) (hk : e.kind = .unary) (hb : LegibleBelow e.height) :
    e.Legible := by
  have he := h.obeys.has_none hk rfl
  obtain ⟨o, _, hcs, ho, hparts⟩ := fill_one_inv (h.parts hk)
  obtain ⟨x, _, rfl, hx, hparts⟩ := fill_one_inv hparts
  obtain rfl := fill_nil_inv hparts
  obtain ⟨op, hop⟩ := h.exists_operator (x := o) (by rw [hcs]; simp) ho
  obtain ⟨s, hs⟩ := h.legible_child hb (Nat.le_refl _) (x := x) (by rw [hcs]; simp)
    (Kind.isExpression_of_isTerm hx)
  exact ⟨_, (hcs ▸ he).expression_unary hop hs⟩

lemma legible_suffix (h : e.Formed) (hk : e.kind = .suffix) (hb : LegibleBelow e.height) :
    e.Legible := by
  have he := h.obeys.has_none hk rfl
  obtain ⟨x, _, hcs, hx, hparts⟩ := fill_one_inv (h.parts hk)
  obtain ⟨o, _, rfl, ho, hparts⟩ := fill_one_inv hparts
  obtain rfl := fill_nil_inv hparts
  obtain ⟨s, hs⟩ := h.legible_child hb (Nat.le_refl _) (x := x) (by rw [hcs]; simp)
    (Kind.isExpression_of_isTerm (Kind.isTerm_of_isOperand hx))
  obtain ⟨op, hop⟩ := h.exists_operator (x := o) (by rw [hcs]; simp) ho
  exact ⟨_, (hcs ▸ he).expression_suffix hs hop⟩

lemma legible_bracketed (h : e.Formed) (hk : e.kind = .bracketed) (hb : LegibleBelow e.height) :
    e.Legible := by
  have he := h.obeys.has_none hk rfl
  obtain ⟨x, _, hcs, hx, hparts⟩ := fill_one_inv (h.parts hk)
  obtain rfl := fill_nil_inv hparts
  obtain ⟨s, hs⟩ := h.legible_child hb (Nat.le_refl _) (x := x) (by rw [hcs]; simp) hx
  exact ⟨_, (hcs ▸ he).expression_bracketed hs⟩

lemma legible_range (h : e.Formed) (hk : e.kind = .range) : e.Legible := by
  have hnumbers : ∀ x ∈ e.children, x.Legible := by
    intro x hx
    have hkind : x.kind = .number := by
      obtain ⟨slot, hs, ht⟩ := exists_of_fill (h.parts hk) hx
      simp only [Kind.parts, List.mem_cons, List.not_mem_nil, or_false] at hs
      rcases hs with rfl | rfl | rfl <;> exact is_iff.mp ht
    exact (h.child hx).legible_word hkind (.inr (.inl rfl))
  obtain ⟨ss, hss⟩ := exists_texts hnumbers
  exact ⟨_, (h.obeys.has_none hk rfl).expression_range hss⟩

/-- The elements of a row have texts. -/
lemma exists_elements (h : x.Formed) (hk : x.kind = .matrixRow ∨ x.kind = .lastRow)
    (hb : LegibleBelow m) (hm : x.height ≤ m) : ∃ ss, texts x.children = .ok ss := by
  refine exists_texts fun y hy => h.legible_child hb hm hy ?_
  have hparts : fill [.one (Node.of Kind.isExpression), .many (Node.of Kind.isExpression)]
      x.children = true := hk.elim h.parts h.parts
  obtain ⟨slot, hs, ht⟩ := exists_of_fill hparts hy
  simp only [List.mem_cons, List.not_mem_nil, or_false] at hs
  rcases hs with rfl | rfl <;> exact ht

lemma legible_matrix (h : e.Formed) (hk : e.kind = .matrix) (hb : LegibleBelow e.height) :
    e.Legible := by
  have hrows : ∀ x ∈ e.children, ∃ ss, texts x.children = .ok ss := by
    intro x hx
    have hkind : x.kind = .matrixRow ∨ x.kind = .lastRow := by
      obtain ⟨slot, hs, ht⟩ := exists_of_fill (h.parts hk) hx
      simp only [Kind.parts, List.mem_cons, List.not_mem_nil, or_false] at hs
      rcases hs with rfl | rfl
      · exact .inl (is_iff.mp ht)
      · exact .inr (is_iff.mp ht)
    exact (h.child hx).exists_elements hkind hb (Nat.le_of_lt (height_lt_of_mem hx))
  obtain ⟨rs, hrs⟩ := exists_rowTexts hrows
  exact ⟨_, (h.obeys.has_none hk rfl).expression_matrix hrs⟩

lemma legible_keyword (h : x.Formed) (hk : x.kind = .keywordArg) (hb : LegibleBelow m)
    (hm : x.height ≤ m) : x.Legible := by
  have he := h.obeys.has_none hk rfl
  obtain ⟨l, _, hcs, hl, hparts⟩ := fill_one_inv (h.parts hk)
  obtain ⟨r, _, rfl, hr, hparts⟩ := fill_one_inv hparts
  obtain rfl := fill_nil_inv hparts
  obtain ⟨s, hs⟩ := (h.child (x := l) (by rw [hcs]; simp)).legible_word (is_iff.mp hl) (.inl rfl)
  obtain ⟨s', hs'⟩ := h.legible_child hb hm (x := r) (by rw [hcs]; simp) hr
  exact ⟨_, (hcs ▸ he).expression_keyword hs hs'⟩

/-- The named arguments below a node have texts. -/
lemma exists_keywords (h : x.Formed) (hk : Node.is .keywordArgs x = true) (hb : LegibleBelow m)
    (hm : x.height ≤ m) : ∃ ss, texts x.children = .ok ss := by
  have hparts := h.parts (is_iff.mp hk)
  rw [Kind.parts, fill_many_iff] at hparts
  exact exists_texts fun y hy => (h.child hy).legible_keyword (is_iff.mp (hparts y hy)) hb
    (Nat.le_trans (Nat.le_of_lt (height_lt_of_mem hy)) hm)

lemma legible_call (h : e.Formed) (hk : e.kind = .call) (hb : LegibleBelow e.height) :
    e.Legible := by
  have he := h.obeys.has_none hk rfl
  obtain ⟨f, _, hcs, hf, hparts⟩ := fill_one_inv (h.parts hk)
  obtain ⟨p, _, rfl, hp, hparts⟩ := fill_one_inv hparts
  obtain ⟨q, _, rfl, hq, hparts⟩ := fill_one_inv hparts
  obtain rfl := fill_nil_inv hparts
  have hchild {c : Node} (hc : c ∈ [f, p, q]) : c.Formed ∧ c.height ≤ e.height := by
    rw [← hcs] at hc
    exact ⟨h.child hc, Nat.le_of_lt (height_lt_of_mem hc)⟩
  obtain ⟨s, hs⟩ := (hchild (c := f) (by simp)).1.legible_name (is_iff.mp hf)
  rw [Node.holding, Bool.and_eq_true, List.all_eq_true] at hp
  obtain ⟨ss, hss⟩ := exists_texts fun y hy =>
    (hchild (c := p) (by simp)).1.legible_child hb (hchild (c := p) (by simp)).2 hy (hp.2 y hy)
  obtain ⟨rs, hrs⟩ := (hchild (c := q) (by simp)).1.exists_keywords hq hb (hchild (by simp)).2
  exact ⟨_, (hcs ▸ he).expression_call hs hss hrs⟩

/-- A piece of a string that is no snippet shows how it is spelled. -/
lemma exists_value (h : x.Formed) (hk : x.kind.isSegment = true) (hs : x.kind ≠ .snippet) :
    ∃ w, x.value = some w := by
  have hword := h.obeys.text
  unfold worded at hword
  generalize x.kind = kind at hk hs hword
  cases kind with
  | snippet => exact absurd rfl hs
  | chars | escape | unicodeEscape | octalEscape => exact Option.isSome_iff_exists.mp hword
  | _ => cases hk

/-- The pieces of a string have texts. -/
lemma exists_pieces (h : ∀ x ∈ ns, x.Formed) (hk : ∀ x ∈ ns, x.kind.isSegment = true)
    (hb : LegibleBelow m) (hm : maxHeight ns ≤ m) :
    ∃ ss : List String, segmentTexts ns = ss.map .ok := by
  induction ns with
  | nil => exact ⟨[], by simp [segmentTexts]⟩
  | cons x ns ih =>
    rw [List.forall_mem_cons] at h hk
    rw [maxHeight_cons] at hm
    obtain ⟨ss, hss⟩ := ih h.2 hk.2 (by omega)
    by_cases hx : x.kind = .snippet
    · have he := h.1.obeys.has_none hx rfl
      obtain ⟨y, _, hcs, hy, hparts⟩ := fill_one_inv (h.1.parts hx)
      obtain rfl := fill_nil_inv hparts
      obtain ⟨s, hs⟩ := h.1.legible_child hb (x := y) (by omega) (by rw [hcs]; simp) hy
      exact ⟨_ :: ss, by rw [segmentTexts_snippet_cons (hcs ▸ he) hs, hss]; rfl⟩
    · obtain ⟨w, hw⟩ := h.1.exists_value hk.1 hx
      exact ⟨w :: ss, by rw [segmentTexts_cons hw hx, hss]; rfl⟩

lemma legible_string (h : e.Formed) (hk : e.kind = .string) (hb : LegibleBelow e.height) :
    e.Legible := by
  have hparts := h.parts hk
  rw [Kind.parts, fill_many_iff] at hparts
  obtain ⟨ss, hss⟩ := exists_pieces (fun x hx => h.child hx) hparts hb (by
    rw [height_eq]
    omega)
  exact ⟨_, (h.obeys.has_none hk rfl).expression_string hss⟩

/-- **Every expression that obeys the schema has a text.** -/
theorem legible (h : e.Formed) (hk : e.kind.isExpression = true) : e.Legible := by
  generalize hm : e.height = m
  induction m using Nat.strongRecOn generalizing e with
  | ind m ih =>
    subst hm
    have hb : LegibleBelow e.height := fun x hx hk hlt => ih x.height hlt hx hk rfl
    generalize hkind : e.kind = kind at hk
    cases kind with
    | memberAccess => exact h.legible_name hkind
    | number => exact h.legible_word hkind (.inr (.inl rfl))
    | percentage => exact h.legible_word hkind (.inr (.inr rfl))
    | range => exact h.legible_range hkind
    | bracketed => exact h.legible_bracketed hkind hb
    | suffix => exact h.legible_suffix hkind hb
    | unary => exact h.legible_unary hkind hb
    | binary => exact h.legible_binary hkind hb
    | matrix => exact h.legible_matrix hkind hb
    | call => exact h.legible_call hkind hb
    | string => exact h.legible_string hkind hb
    | _ => cases hk

end Node.Formed

lemma legibleBelow (m : Nat) : LegibleBelow m := fun _ hx hk _ => hx.legible hk

end

/-! ### Statements -/

/-- A step of writing succeeds on every sheet. -/
def Writable (w : Write Unit) : Prop := ∀ s, ∃ s', w s = .ok ((), s')

/-- The statements below a number of levels can be written. -/
def WritableBelow (h : Nat) : Prop :=
  ∀ x : Node, x.Formed → x.kind.isEntry = true → x.height < h → Writable (statement x)

section

variable {e x : Node} {ns : List Node} {w body : Write Unit} {f : Unit → Write Unit} {m : Nat}

namespace Writable

lemma bind (h : Writable w) (hf : Writable (f ())) : Writable (w >>= f) := by
  intro s
  obtain ⟨s', hs⟩ := h s
  rw [run_then hs]
  exact hf s'

lemma line (text : String) : Writable (line text) := fun _ => ⟨_, rfl⟩

lemma attach (text : String) : Writable (attach text) := by
  intro s
  obtain ⟨lines, indent⟩ := s
  cases lines <;> exact ⟨_, rfl⟩

lemma indent (g : Sheet → Sheet) : Writable (modify g) := fun _ => ⟨_, rfl⟩

lemma closing (h : Writable body) : Writable (closing body) :=
  (indent _).bind (h.bind ((indent _).bind (line _)))

lemma block (h : Writable body) (header : String) : Writable (block header body) :=
  (line _).bind h.closing

lemma attached (h : Writable body) (header : String) : Writable (attached header body) :=
  (attach _).bind h.closing

lemma statements (h : ∀ x ∈ ns, Writable (statement x)) : Writable (statements ns) := by
  induction ns with
  | nil => exact fun s => ⟨s, run_statements_nil s⟩
  | cons x ns ih =>
    rw [List.forall_mem_cons] at h
    exact h.1.bind (ih h.2)

end Writable

namespace Node.Formed

/-- What stands in a program or a block can be written. -/
lemma writable_children (h : x.Formed) (hk : x.kind = .block ∨ x.kind = .sourceFile)
    (hb : WritableBelow m) (hm : x.height ≤ m) : Writable (statements x.children) := by
  have hparts : fill [.many (Node.of Kind.isEntry)] x.children = true := hk.elim h.parts h.parts
  rw [fill_many_iff] at hparts
  exact .statements fun y hy =>
    hb y (h.child hy) (hparts y hy) (Nat.lt_of_lt_of_le (height_lt_of_mem hy) hm)

/-- The block of a statement can be written. -/
lemma writable_block (h : e.Formed) (hb : WritableBelow m) (hm : e.height ≤ m)
    (hx : x ∈ e.children) (hk : Node.is .block x = true) : Writable (statements x.children) :=
  (h.child hx).writable_children (.inl (is_iff.mp hk)) hb
    (Nat.le_trans (Nat.le_of_lt (height_lt_of_mem hx)) hm)

lemma writable_clause (h : x.Formed) (hk : x.kind = .elseifClause ∨ x.kind = .elseClause)
    (hb : WritableBelow m) (hm : x.height ≤ m) (hns : Writable (clauses 0 ns)) :
    Writable (clauses 0 (x :: ns)) := by
  rcases hk with hk | hk
  · have hx := h.obeys.has_none hk rfl
    obtain ⟨c, _, hcs, hc, hparts⟩ := fill_one_inv (h.parts hk)
    obtain ⟨b, _, rfl, hblock, hparts⟩ := fill_one_inv hparts
    obtain rfl := fill_nil_inv hparts
    obtain ⟨s, hs⟩ := (h.child (x := c) (by rw [hcs]; simp)).legible hc
    have hbody := h.writable_block hb hm (x := b) (by rw [hcs]; simp) hblock
    intro sheet
    rw [run_elseif (hcs ▸ hx) hs]
    exact (hbody.attached _).bind hns sheet
  · have hx := h.obeys.has_none hk rfl
    obtain ⟨b, _, hcs, hblock, hparts⟩ := fill_one_inv (h.parts hk)
    obtain rfl := fill_nil_inv hparts
    have hbody := h.writable_block hb hm (x := b) (by rw [hcs]; simp) hblock
    intro sheet
    rw [run_else (hcs ▸ hx)]
    exact (hbody.attached _).bind hns sheet

lemma writable_clauses (h : ∀ x ∈ ns, x.Formed)
    (hk : ∀ x ∈ ns, x.kind = .elseifClause ∨ x.kind = .elseClause) (hb : WritableBelow m)
    (hm : ∀ x ∈ ns, x.height ≤ m) : Writable (clauses 0 ns) := by
  induction ns with
  | nil => exact fun s => ⟨s, run_clauses_nil s⟩
  | cons x ns ih =>
    rw [List.forall_mem_cons] at h hk hm
    exact h.1.writable_clause hk.1 hb hm.1 (ih h.2 hk.2 hm.2)

lemma writable_ifStatement (h : e.Formed) (hk : e.kind = .ifStatement)
    (hb : WritableBelow e.height) : Writable (statement e) := by
  have he := h.obeys.has_none hk rfl
  obtain ⟨c, _, hcs, hc, hparts⟩ := fill_one_inv (h.parts hk)
  obtain ⟨b, ns, rfl, hblock, hparts⟩ := fill_one_inv hparts
  have hchild : ∀ x ∈ ns, x ∈ e.children := fun x hx => by rw [hcs]; simp [hx]
  have hkinds : ∀ x ∈ ns, x.kind = .elseifClause ∨ x.kind = .elseClause := by
    intro x hx
    obtain ⟨slot, hs, ht⟩ := exists_of_fill hparts hx
    simp only [List.mem_cons, List.not_mem_nil, or_false] at hs
    rcases hs with rfl | rfl
    · exact .inl (is_iff.mp ht)
    · exact .inr (is_iff.mp ht)
  obtain ⟨s, hs⟩ := (h.child (x := c) (by rw [hcs]; simp)).legible hc
  have hbody := h.writable_block hb (Nat.le_refl _) (x := b) (by rw [hcs]; simp) hblock
  have hclauses : Writable (clauses 0 ns) := writable_clauses (fun x hx => h.child (hchild x hx))
    hkinds hb fun x hx => Nat.le_of_lt (height_lt_of_mem (hchild x hx))
  intro sheet
  rw [run_ifStatement (hcs ▸ he) hs]
  exact (hbody.block _).bind hclauses sheet

lemma writable_whileLoop (h : e.Formed) (hk : e.kind = .whileLoop)
    (hb : WritableBelow e.height) : Writable (statement e) := by
  have he := h.obeys.has_none hk rfl
  obtain ⟨c, _, hcs, hc, hparts⟩ := fill_one_inv (h.parts hk)
  obtain ⟨b, _, rfl, hblock, hparts⟩ := fill_one_inv hparts
  obtain rfl := fill_nil_inv hparts
  obtain ⟨s, hs⟩ := (h.child (x := c) (by rw [hcs]; simp)).legible hc
  have hbody := h.writable_block hb (Nat.le_refl _) (x := b) (by rw [hcs]; simp) hblock
  intro sheet
  rw [run_whileLoop (hcs ▸ he) hs]
  exact hbody.block _ sheet

lemma writable_forLoop (h : e.Formed) (hk : e.kind = .forLoop)
    (hb : WritableBelow e.height) : Writable (statement e) := by
  have he := h.obeys.has_none hk rfl
  obtain ⟨x, _, hcs, hx, hparts⟩ := fill_one_inv (h.parts hk)
  obtain ⟨c, _, rfl, hc, hparts⟩ := fill_one_inv hparts
  obtain ⟨b, _, rfl, hblock, hparts⟩ := fill_one_inv hparts
  obtain rfl := fill_nil_inv hparts
  obtain ⟨name, hname⟩ := (h.child (x := x) (by rw [hcs]; simp)).legible_word (is_iff.mp hx)
    (.inl rfl)
  obtain ⟨s, hs⟩ := (h.child (x := c) (by rw [hcs]; simp)).legible hc
  have hbody := h.writable_block hb (Nat.le_refl _) (x := b) (by rw [hcs]; simp) hblock
  intro sheet
  rw [run_forLoop (hcs ▸ he) hname hs]
  exact hbody.block _ sheet

lemma writable_functionDefinition (h : e.Formed) (hk : e.kind = .functionDefinition)
    (hb : WritableBelow e.height) : Writable (statement e) := by
  have he := h.obeys.has_none hk rfl
  obtain ⟨x, _, hcs, hx, hparts⟩ := fill_one_inv (h.parts hk)
  obtain ⟨p, _, rfl, hp, hparts⟩ := fill_one_inv hparts
  obtain ⟨q, _, rfl, hq, hparts⟩ := fill_one_inv hparts
  obtain ⟨b, _, rfl, hblock, hparts⟩ := fill_one_inv hparts
  obtain rfl := fill_nil_inv hparts
  obtain ⟨name, hname⟩ := (h.child (x := x) (by rw [hcs]; simp)).legible_word (is_iff.mp hx)
    (.inl rfl)
  have hpositional := h.child (x := p) (by rw [hcs]; simp)
  rw [Node.holding, Bool.and_eq_true, List.all_eq_true] at hp
  obtain ⟨ss, hss⟩ := exists_texts fun y hy =>
    (hpositional.child hy).legible_word (eq_of_beq (hp.2 y hy)) (.inl rfl)
  obtain ⟨rs, hrs⟩ := (h.child (x := q) (by rw [hcs]; simp)).exists_keywords hq
    (legibleBelow q.height) (Nat.le_refl _)
  have hbody := h.writable_block hb (Nat.le_refl _) (x := b) (by rw [hcs]; simp) hblock
  intro sheet
  rw [run_functionDefinition (hcs ▸ he) hname hss hrs]
  exact hbody.block _ sheet

/-- An assignment, with or without a semicolon. -/
lemma writable_assignment (h : e.Formed) (hk : e.kind = .assignment) :
    Writable (statement e) := by
  have he := h.obeys.has hk
  obtain ⟨x, _, hcs, hx, hparts⟩ := fill_one_inv (h.parts hk)
  obtain ⟨y, _, rfl, hy, hparts⟩ := fill_one_inv hparts
  obtain rfl := fill_nil_inv hparts
  obtain ⟨name, hname⟩ := (h.child (x := x) (by rw [hcs]; simp)).legible_word (is_iff.mp hx)
    (.inl rfl)
  obtain ⟨s, hs⟩ := (h.child (x := y) (by rw [hcs]; simp)).legible hy
  intro sheet
  rw [run_assignment (hcs ▸ he) hname hs]
  exact Writable.line _ sheet

/-- A statement with one part is written on one line. -/
lemma writable_single {k : Kind} {test : Node → Bool} {text : String → String}
    {value : Option String} (h : e.Formed) (he : e.Has k e.children value)
    (hparts : k.parts = [.one test])
    (htest : ∀ x ∈ e.children, test x = true → x.Legible)
    (hrun : ∀ x s, e.Has k [x] value → expression x = .ok s →
      ∀ sheet, statement e sheet = Source.line (text s) sheet) : Writable (statement e) := by
  have hfill := h.parts he.kind
  rw [hparts] at hfill
  obtain ⟨x, _, hcs, hx, hnil⟩ := fill_one_inv hfill
  obtain rfl := fill_nil_inv hnil
  obtain ⟨s, hs⟩ := htest x (by rw [hcs]; simp) hx
  intro sheet
  rw [hrun x s (hcs ▸ he) hs]
  exact Writable.line _ sheet

/-- **Every statement that obeys the schema can be written**, and so can an error in its
place. -/
theorem writable (h : e.Formed) (hk : e.kind.isEntry = true) : Writable (statement e) := by
  generalize hm : e.height = m
  induction m using Nat.strongRecOn generalizing e with
  | ind m ih =>
    subst hm
    have hb : WritableBelow e.height := fun x hx hk hlt => ih x.height hlt hx hk rfl
    have hexpression : ∀ x ∈ e.children, Node.of Kind.isExpression x = true → x.Legible :=
      fun x hx hk => (h.child hx).legible hk
    generalize hkind : e.kind = kind at hk
    cases kind with
    | comment =>
      obtain ⟨w, he⟩ := h.obeys.has_word hkind rfl
      exact fun s => ⟨_, run_comment he s⟩
    | error =>
      obtain ⟨w, he⟩ := h.obeys.has_word hkind rfl
      exact fun s => ⟨_, run_error he s⟩
    | breakStatement => exact fun s => ⟨_, run_break (h.obeys.has hkind) s⟩
    | contStatement => exact fun s => ⟨_, run_cont (h.obeys.has hkind) s⟩
    | exitStatement => exact fun s => ⟨_, run_exit (h.obeys.has hkind) s⟩
    | expressionStatement =>
      exact h.writable_single (h.obeys.has hkind) rfl hexpression
        fun _ _ => run_expressionStatement
    | returnStatement =>
      exact h.writable_single (h.obeys.has_none hkind rfl) rfl hexpression fun _ _ => run_return
    | symbolDeclaration =>
      exact h.writable_single (h.obeys.has_none hkind rfl) rfl
        (fun x hx hk => (h.child hx).legible_word (is_iff.mp hk) (.inl rfl))
        fun _ _ => run_symbolDeclaration
    | importStatement =>
      exact h.writable_single (h.obeys.has_none hkind rfl) rfl
        (fun x hx hk => (h.child hx).legible_name (is_iff.mp hk)) fun _ _ => run_import
    | assignment => exact h.writable_assignment hkind
    | ifStatement => exact h.writable_ifStatement hkind hb
    | whileLoop => exact h.writable_whileLoop hkind hb
    | forLoop => exact h.writable_forLoop hkind hb
    | functionDefinition => exact h.writable_functionDefinition hkind hb
    | _ => cases hk

end Node.Formed

end

/-! ### Trees -/

section

variable {t : Tree} {form : Target}

/-- A tree is shown as program text with what its root writes. -/
lemma Target.render_of_isRoot {s : Sheet} (hform : Emitter.start form = .source {})
    (hk : isRoot t.root.kind = true) (h : statement t.root {} = .ok ((), s)) :
    form.render t = .ok s.output := by
  have hadd : (Emitter.source {}).addAny t = .ok (.source s) := by
    rw [Emitter.addAny]
    simp only [hk, if_true]
    show (statement t.root {} >>= _) = _
    rw [h]
    rfl
  rw [render, hform, hadd]
  rfl

/-- **Every program that obeys the schema can be shown**, in every form. -/
theorem Target.render_ok (hk : t.root.kind = .sourceFile) (h : t.root.Formed) (form : Target) :
    ∃ text, form.render t = .ok text := by
  have hwritable : Writable (statement t.root) := by
    intro s
    rw [run_sourceFile hk]
    exact h.writable_children (.inr hk) (fun x hx hentry _ => hx.writable hentry) (Nat.le_refl _) s
  obtain ⟨s, hs⟩ := hwritable {}
  have hroot : (t.root.kind == .sourceFile) = true := beq_iff_eq.mpr hk
  have htree : (Emitter.outline []).addAny t = (Emitter.outline []).add t := if_pos hroot
  have hjson : (Emitter.document (.object [])).addAny t = (Emitter.document (.object [])).add t :=
    if_pos hroot
  cases form with
  | stp | source => exact ⟨_, render_of_isRoot rfl (by rw [hk]; rfl) hs⟩
  | tree =>
    rw [render, show Emitter.start .tree = .outline [] from rfl, htree]
    exact ⟨_, rfl⟩
  | json =>
    rw [render, show Emitter.start .json = .document (.object []) from rfl, hjson]
    exact ⟨_, rfl⟩

end

end StpLang
