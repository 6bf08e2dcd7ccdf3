import StpLang.Proofs.RoundTrip.Statement

/-!
Every block of statements is read as it is written.

The statements below a node are read by induction on the number of levels. What the
node demands bounds the snippets and the levels of the grammar that are entered.

* `WritesBelow` says that the statements below a number of levels are read as they
  are written.
* `Node.Sound.writes` is the result for statements.
-/

namespace StpLang

open Slot

/-! ### Words that are statements -/

namespace Node

variable {n : Node} {kind : Kind}

/-- The words of the statements that consist of one. -/
def keyword? : Kind → Option String
  | .breakStatement => some "break"
  | .contStatement => some "cont"
  | .exitStatement => some "exit"
  | _ => none

lemma Sound.has_keyword {w : String} (h : n.Sound) (hk : n.kind = kind)
    (hw : keyword? kind = some w) : n.Has kind [] (some w) := by
  have hhas := h.has hk
  have hparts := h.parts hk
  have htext := h.obeys.text
  unfold worded at htext
  rw [hk] at htext
  cases kind <;> first
    | (cases hw
       rwa [fill_nil_inv hparts, eq_of_beq htext] at hhas)
    | cases hw

end Node

/-! ### Statements -/

/-- The statements below a number of levels are read as they are written. -/
def WritesBelow (limit : Int) (m : Nat) : Prop :=
  ∀ (c : Node) (loops : Nat), c.Sound → c.kind.isStatement = true → c.height < m →
    c.demand ≤ limit.toNat → c.controlled (loops != 0) = true → Writes limit loops c

section

variable {limit : Int} {loops m : Nat} {e x : Node} {ns : List Node}

lemma writesAll (h : ∀ c ∈ ns, Writes limit loops c) : WritesAll limit loops ns := by
  induction ns with
  | nil => exact writesAll_nil
  | cons c ns ih =>
    rw [List.forall_mem_cons] at h
    exact h.1.cons (ih h.2)

namespace Node.Sound

/-- What stands in a program or a block is a statement. -/
lemma isStatement (h : x.Sound) (hk : x.kind.isEntry = true) : x.kind.isStatement = true := by
  rw [Kind.isEntry, Bool.or_eq_true, beq_iff_eq] at hk
  refine hk.resolve_right fun herror => ?_
  have hspelt := h.spelt
  rw [Node.spelt, herror] at hspelt
  cases hspelt

/-- The statements of a program or a block. -/
lemma entries (h : x.Sound) (hk : x.kind = .sourceFile ∨ x.kind = .block) :
    ∀ c ∈ x.children, c.kind.isStatement = true := by
  have hparts : fill [.many (Node.of Kind.isEntry)] x.children = true := by
    rcases hk with hk | hk <;> exact h.parts hk
  rw [fill_many_iff] at hparts
  exact fun c hc => (h.child hc).isStatement (hparts c hc)

lemma writes_block (h : x.Sound) (hk : Node.is .block x = true) (hb : WritesBelow limit m)
    (hm : x.height ≤ m) (hn : x.demand ≤ limit.toNat) (hc : x.controlled (loops != 0) = true) :
    x.Has .block x.children none ∧ WritesAll limit loops x.children := by
  have hkind := is_iff.mp hk
  have hx := h.has_none hkind rfl
  refine ⟨hx, writesAll fun c hmem =>
    hb c loops (h.child hmem) (h.entries (.inr hkind) c hmem) ?_ ?_ ?_⟩
  · exact Nat.lt_of_lt_of_le (height_lt_of_mem hmem) hm
  · exact Nat.le_trans (demand_le_of_mem hmem) hn
  · exact hx.controlled hc (by decide) (by decide) c hmem

/-- The clauses of an `if`. -/
lemma writes_clauses (h : ∀ c ∈ ns, c.Sound)
    (hk : fill [.many (Node.is .elseifClause), .optional (Node.is .elseClause)] ns = true)
    (hb : WritesBelow limit m) (hm : ∀ c ∈ ns, c.height ≤ m)
    (hn : ∀ c ∈ ns, c.demand ≤ limit.toNat)
    (hc : ∀ c ∈ ns, c.controlled (loops != 0) = true) : WritesClauses limit loops false ns := by
  have hchild {c : Node} (hmem : c ∈ ns) {d : Node} (hd : d ∈ c.children) :
      d.Sound ∧ d.height ≤ m ∧ d.demand ≤ limit.toNat := by
    have hlt := Nat.lt_of_lt_of_le (height_lt_of_mem hd) (hm c hmem)
    exact ⟨(h c hmem).child hd, Nat.le_of_lt hlt, Nat.le_trans (demand_le_of_mem hd) (hn c hmem)⟩
  obtain ⟨xs, ys, rfl, hxs, hys⟩ := fill_many_inv hk
  clear hk
  induction xs with
  | nil =>
    rcases fill_optional_inv hys with hys | ⟨y, ys, rfl, hy, hys⟩
    · rw [fill_nil_inv hys]
      exact writesClauses_nil
    · obtain rfl := fill_nil_inv hys
      have hkind := is_iff.mp hy
      have hsound := h y (by simp)
      have hhas := hsound.has_none hkind rfl
      obtain ⟨body, _, hcs, hbody, hparts⟩ := fill_one_inv (hsound.parts hkind)
      obtain rfl := fill_nil_inv hparts
      obtain ⟨hbsound, hbm, hbn⟩ := hchild (c := y) (by simp) (d := body) (by rw [hcs]; simp)
      rw [hcs] at hhas
      have hinner := hhas.controlled (hc y (by simp)) (by decide) (by decide) body (by simp)
      obtain ⟨hblock, hall⟩ := hbsound.writes_block hbody hb hbm hbn hinner
      exact .else hhas hblock hall
  | cons x xs ih =>
    rw [List.forall_mem_cons] at hxs
    have hkind := is_iff.mp hxs.1
    have hsound := h x (by simp)
    have hhas := hsound.has_none hkind rfl
    obtain ⟨y, _, hcs, hy, hparts⟩ := fill_one_inv (hsound.parts hkind)
    obtain ⟨body, _, rfl, hbody, hparts⟩ := fill_one_inv hparts
    obtain rfl := fill_nil_inv hparts
    obtain ⟨hysound, -, hylimit⟩ := hchild (c := x) (by simp) (d := y) (by rw [hcs]; simp)
    obtain ⟨hbsound, hbm, hbn⟩ := hchild (c := x) (by simp) (d := body) (by rw [hcs]; simp)
    rw [hcs] at hhas
    have hinner := hhas.controlled (hc x (by simp)) (by decide) (by decide) body (by simp)
    obtain ⟨hblock, hall⟩ := hbsound.writes_block hbody hb hbm hbn hinner
    obtain ⟨s, hs⟩ := hysound.speaks hy hylimit
    have hmore := ih (fun c hmem => h c (List.mem_cons_of_mem x hmem))
      (fun c hmem => hm c (List.mem_cons_of_mem x hmem))
      (fun c hmem => hn c (List.mem_cons_of_mem x hmem))
      (fun c hmem => hc c (List.mem_cons_of_mem x hmem))
      (fun {_} hmem {_} hd => hchild (List.mem_cons_of_mem x hmem) hd) hxs.2
    exact hmore.elseif hhas hs hblock hall

/-! ### Each kind of statement -/

/-- An expression below a statement is read as it is written. -/
lemma speaks_part {n : Nat} (h : e.Sound) (hn : e.demand ≤ n) (hx : x ∈ e.children)
    (hk : x.kind.isExpression = true) : ∃ s, Speaks n x s :=
  (h.child hx).speaks hk (Nat.le_trans (demand_le_of_mem hx) hn)

/-- The text of a statement that may end with a semicolon. -/
lemma mark (h : e.Sound) (hk : e.kind = .assignment ∨ e.kind = .expressionStatement) :
    e.value = none ∨ e.value = some ";" := by
  have htext := h.obeys.text
  unfold worded at htext
  rcases hk with hk | hk <;>
  · rw [hk] at htext
    simpa using htext

lemma writes_assignment (h : e.Sound) (hk : e.kind = .assignment) (hn : e.demand ≤ limit.toNat) :
    Writes limit loops e := by
  have he := h.has hk
  obtain ⟨x, _, hcs, hx, hparts⟩ := fill_one_inv (h.parts hk)
  obtain ⟨y, _, rfl, hy, hparts⟩ := fill_one_inv hparts
  obtain rfl := fill_nil_inv hparts
  obtain ⟨w, hw, hname⟩ := (h.child (c := x) (by rw [hcs]; simp)).name (is_iff.mp hx)
  obtain ⟨s, hs⟩ := h.speaks_part hn (x := y) (by rw [hcs]; simp) hy
  rw [hcs] at he
  exact StpLang.writes_assignment he (h.mark (.inl hk)) hw hname hs

lemma writes_expressionStatement (h : e.Sound) (hk : e.kind = .expressionStatement)
    (hn : e.demand ≤ limit.toNat) : Writes limit loops e := by
  have he := h.has hk
  obtain ⟨x, _, hcs, hx, hparts⟩ := fill_one_inv (h.parts hk)
  obtain rfl := fill_nil_inv hparts
  obtain ⟨s, hs⟩ := h.speaks_part hn (by rw [hcs]; simp) hx
  rw [hcs] at he
  exact StpLang.writes_expressionStatement he (h.mark (.inr hk)) hs

lemma writes_symbolDeclaration (h : e.Sound) (hk : e.kind = .symbolDeclaration) :
    Writes limit loops e := by
  have he := h.has_none hk rfl
  obtain ⟨x, _, hcs, hx, hparts⟩ := fill_one_inv (h.parts hk)
  obtain rfl := fill_nil_inv hparts
  obtain ⟨w, hw, hname⟩ := (h.child (c := x) (by rw [hcs]; simp)).name (is_iff.mp hx)
  rw [hcs] at he
  exact StpLang.writes_symbolDeclaration he hw hname

lemma writes_import (h : e.Sound) (hk : e.kind = .importStatement) : Writes limit loops e := by
  have he := h.has_none hk rfl
  obtain ⟨x, _, hcs, hx, hparts⟩ := fill_one_inv (h.parts hk)
  obtain rfl := fill_nil_inv hparts
  obtain ⟨s, hs⟩ := (h.child (c := x) (by rw [hcs]; simp)).speaksName (is_iff.mp hx)
  rw [hcs] at he
  exact StpLang.writes_import he hs

lemma writes_return (h : e.Sound) (hk : e.kind = .returnStatement) (hn : e.demand ≤ limit.toNat) :
    Writes limit loops e := by
  have he := h.has_none hk rfl
  obtain ⟨x, _, hcs, hx, hparts⟩ := fill_one_inv (h.parts hk)
  obtain rfl := fill_nil_inv hparts
  obtain ⟨s, hs⟩ := h.speaks_part hn (by rw [hcs]; simp) hx
  rw [hcs] at he
  exact StpLang.writes_return he hs

/-- The block of a statement, within the loops that the statement puts around it. -/
lemma writes_body {kind : Kind} {value : Option String} {inner : Nat} (h : e.Sound)
    (he : e.Has kind ns value) (hx : x ∈ ns) (hk : Node.is .block x = true)
    (hn : e.demand ≤ limit.toNat) (hb : WritesBelow limit e.height) (hc : e.controlled (loops != 0) = true)
    (hinner : kind.inLoop (loops != 0) = (inner != 0)) (hne : kind ≠ .breakStatement)
    (hne' : kind ≠ .contStatement) :
    x.Has .block x.children none ∧ WritesAll limit inner x.children := by
  have hmem : x ∈ e.children := by rwa [he.children]
  refine (h.child hmem).writes_block hk hb (Nat.le_of_lt (height_lt_of_mem hmem))
    (Nat.le_trans (demand_le_of_mem hmem) hn) ?_
  rw [← hinner]
  exact he.controlled hc hne hne' x hx

lemma writes_whileLoop (h : e.Sound) (hk : e.kind = .whileLoop) (hn : e.demand ≤ limit.toNat)
    (hb : WritesBelow limit e.height) (hc : e.controlled (loops != 0) = true) :
    Writes limit loops e := by
  have he := h.has_none hk rfl
  obtain ⟨x, _, hcs, hx, hparts⟩ := fill_one_inv (h.parts hk)
  obtain ⟨body, _, rfl, hbody, hparts⟩ := fill_one_inv hparts
  obtain rfl := fill_nil_inv hparts
  obtain ⟨s, hs⟩ := h.speaks_part hn (x := x) (by rw [hcs]; simp) hx
  rw [hcs] at he
  have hinner : Kind.whileLoop.inLoop (loops != 0) = (loops + 1 != 0) := by simp [Kind.inLoop]
  obtain ⟨hblock, hall⟩ := h.writes_body he (x := body) (by simp) hbody hn hb hc hinner
    (by decide) (by decide)
  exact StpLang.writes_whileLoop he hs hblock hall

lemma writes_forLoop (h : e.Sound) (hk : e.kind = .forLoop) (hn : e.demand ≤ limit.toNat)
    (hb : WritesBelow limit e.height) (hc : e.controlled (loops != 0) = true) :
    Writes limit loops e := by
  have he := h.has_none hk rfl
  obtain ⟨x, _, hcs, hx, hparts⟩ := fill_one_inv (h.parts hk)
  obtain ⟨y, _, rfl, hy, hparts⟩ := fill_one_inv hparts
  obtain ⟨body, _, rfl, hbody, hparts⟩ := fill_one_inv hparts
  obtain rfl := fill_nil_inv hparts
  obtain ⟨w, hw, hname⟩ := (h.child (c := x) (by rw [hcs]; simp)).name (is_iff.mp hx)
  obtain ⟨s, hs⟩ := h.speaks_part hn (x := y) (by rw [hcs]; simp) hy
  rw [hcs] at he
  have hinner : Kind.forLoop.inLoop (loops != 0) = (loops + 1 != 0) := by simp [Kind.inLoop]
  obtain ⟨hblock, hall⟩ := h.writes_body he (x := body) (by simp) hbody hn hb hc hinner
    (by decide) (by decide)
  exact StpLang.writes_forLoop he hw hname hs hblock hall

lemma writes_functionDefinition (h : e.Sound) (hk : e.kind = .functionDefinition)
    (hn : e.demand ≤ limit.toNat) (hb : WritesBelow limit e.height)
    (hc : e.controlled (loops != 0) = true) : Writes limit loops e := by
  have he := h.has_none hk rfl
  obtain ⟨x, _, hcs, hx, hparts⟩ := fill_one_inv (h.parts hk)
  obtain ⟨p, _, rfl, hp, hparts⟩ := fill_one_inv hparts
  obtain ⟨q, _, rfl, hq, hparts⟩ := fill_one_inv hparts
  obtain ⟨body, _, rfl, hbody, hparts⟩ := fill_one_inv hparts
  obtain rfl := fill_nil_inv hparts
  have hchild {c : Node} (hmem : c ∈ e.children) :
      c.Sound ∧ c.height < e.height ∧ c.demand ≤ limit.toNat :=
    ⟨h.child hmem, height_lt_of_mem hmem, Nat.le_trans (demand_le_of_mem hmem) hn⟩
  rw [hcs] at he hchild
  obtain ⟨w, hw, hname⟩ := (hchild (c := x) (by simp)).1.name (is_iff.mp hx)
  obtain ⟨hpsound, -⟩ := hchild (c := p) (by simp)
  obtain ⟨hqsound, hqheight, hqdemand⟩ := hchild (c := q) (by simp)
  rw [Node.holding, Bool.and_eq_true, beq_iff_eq, List.all_eq_true] at hp
  obtain ⟨ss, hss⟩ : ∃ ss, List.Forall₂ (SpeaksItem limit.toNat .parameter) p.children ss := by
    refine exists_forall₂ fun c hmem => ?_
    obtain ⟨v, hv, hvname⟩ := (hpsound.child hmem).name (eq_of_beq (hp.2 c hmem))
    exact ⟨v, item_parameter hv hvname⟩
  have hbelow : SpeaksBelow limit.toNat e.height := fun c hcsound hck _ hcn =>
    hcsound.speaks hck hcn
  have hqparts := hqsound.parts (is_iff.mp hq)
  rw [Kind.parts, fill_many_iff] at hqparts
  obtain ⟨rs, hrs⟩ := hbelow.keywords (fun c hmem => hqsound.child hmem) hqparts (by
    rw [Node.height_eq] at hqheight
    omega) fun c hmem => Nat.le_trans (demand_le_of_mem hmem) hqdemand
  have hinner : Kind.functionDefinition.inLoop (loops != 0) = ((0 : Nat) != 0) := rfl
  obtain ⟨hblock, hall⟩ := h.writes_body he (x := body) (by simp) hbody hn hb hc hinner
    (by decide) (by decide)
  exact StpLang.writes_functionDefinition he hw hname (hpsound.has_none hp.1 rfl)
    (hqsound.has_none (is_iff.mp hq) rfl) hss hrs hblock hall

lemma writes_ifStatement (h : e.Sound) (hk : e.kind = .ifStatement) (hn : e.demand ≤ limit.toNat)
    (hb : WritesBelow limit e.height) (hc : e.controlled (loops != 0) = true) :
    Writes limit loops e := by
  have he := h.has_none hk rfl
  obtain ⟨x, _, hcs, hx, hparts⟩ := fill_one_inv (h.parts hk)
  obtain ⟨body, ys, rfl, hbody, hparts⟩ := fill_one_inv hparts
  obtain ⟨s, hs⟩ := h.speaks_part hn (x := x) (by rw [hcs]; simp) hx
  have hclause {c : Node} (hmem : c ∈ ys) : c ∈ e.children := by
    rw [hcs]
    exact List.mem_cons_of_mem _ (List.mem_cons_of_mem _ hmem)
  rw [hcs] at he
  have hinner : Kind.ifStatement.inLoop (loops != 0) = (loops != 0) := rfl
  obtain ⟨hblock, hall⟩ := h.writes_body he (x := body) (by simp) hbody hn hb hc hinner
    (by decide) (by decide)
  have hclauses : WritesClauses limit loops false ys :=
    writes_clauses (fun c hmem => h.child (hclause hmem)) hparts hb
      (fun c hmem => Nat.le_of_lt (height_lt_of_mem (hclause hmem)))
      (fun c hmem => Nat.le_trans (demand_le_of_mem (hclause hmem)) hn) fun c hmem =>
        he.controlled hc (by decide) (by decide) c (by simp [hmem])
  exact StpLang.writes_ifStatement he hs hblock hall hclauses

/-- **Every statement is read as it is written**, when the limit is at least what it
demands. -/
theorem writes (h : e.Sound) (hk : e.kind.isStatement = true) (hn : e.demand ≤ limit.toNat)
    (hc : e.controlled (loops != 0) = true) : Writes limit loops e := by
  generalize hm : e.height = m
  induction m using Nat.strongRecOn generalizing e loops with
  | ind m ih =>
    subst hm
    have hb : WritesBelow limit e.height := fun c l hs hk hlt hn hc =>
      ih c.height hlt hs hk hn hc rfl
    generalize hkind : e.kind = kind at hk
    cases kind with
    | comment =>
      obtain ⟨w, hw⟩ := h.has_word hkind rfl
      have hspelt := h.spelt
      rw [Node.spelt, hkind, hw.value] at hspelt
      exact writes_comment hw hspelt
    | assignment => exact h.writes_assignment hkind hn
    | expressionStatement => exact h.writes_expressionStatement hkind hn
    | symbolDeclaration => exact h.writes_symbolDeclaration hkind
    | importStatement => exact h.writes_import hkind
    | returnStatement => exact h.writes_return hkind hn
    | exitStatement => exact writes_exit (h.has_keyword hkind rfl)
    | breakStatement =>
      have he := h.has_keyword hkind rfl
      exact writes_loopControl (.inl ⟨rfl, rfl⟩) he (by simpa using he.loop_around hc (.inl rfl))
    | contStatement =>
      have he := h.has_keyword hkind rfl
      exact writes_loopControl (.inr ⟨rfl, rfl⟩) he (by simpa using he.loop_around hc (.inr rfl))
    | whileLoop => exact h.writes_whileLoop hkind hn hb hc
    | forLoop => exact h.writes_forLoop hkind hn hb hc
    | functionDefinition => exact h.writes_functionDefinition hkind hn hb hc
    | ifStatement => exact h.writes_ifStatement hkind hn hb hc
    | _ => cases hk

end Node.Sound

end

end StpLang
