import StpLang.Proofs.RoundTrip.Group
import StpLang.Proofs.RoundTrip.Piece

/-!
Every expression is read as it is written.

The schema says which parts an expression has, and the parts are read by
induction on the number of levels.

* `Node.Sound` says that the nodes of a subtree obey the schema and show words that
  are read as they are.
* `Node.Sound.speaks` is the result for expressions.
-/

namespace StpLang

open Grammar (rightLevel)
open Slot

namespace Node

/-- The nodes of the subtree obey the schema and show words that are read as they
are. -/
def Sound (n : Node) : Prop := ∀ m ∈ n.walk, m.Obeys ∧ m.spelt = true

variable {n c : Node} {kind : Kind}

lemma Sound.obeys (h : n.Sound) : n.Obeys := ((n.forall_mem_walk.mp h).1).1

lemma Sound.spelt (h : n.Sound) : n.spelt = true := ((n.forall_mem_walk.mp h).1).2

lemma Sound.child (h : n.Sound) (hc : c ∈ n.children) : c.Sound := (n.forall_mem_walk.mp h).2 c hc

lemma Sound.has (h : n.Sound) (hk : n.kind = kind) : n.Has kind n.children n.value :=
  h.obeys.has hk

lemma Sound.parts (h : n.Sound) (hk : n.kind = kind) : fill kind.parts n.children = true :=
  hk ▸ h.obeys.parts

lemma Sound.has_none (h : n.Sound) (hk : n.kind = kind) (hb : isBare kind = true) :
    n.Has kind n.children none := h.obeys.has_none hk hb

lemma Sound.has_word (h : n.Sound) (hk : n.kind = kind) (hw : isWord kind = true) :
    ∃ w, n.Has kind [] (some w) := h.obeys.has_word hk hw

lemma Sound.name (h : n.Sound) (hk : n.kind = .identifier) :
    ∃ w, n.Has .identifier [] (some w) ∧ isName w = true := by
  obtain ⟨w, hw⟩ := h.has_word hk rfl
  have hs := h.spelt
  rw [Node.spelt, hk, hw.value] at hs
  exact ⟨w, hw, hs⟩

/-- A text that may be missing is the text of a node that shows one. -/
lemma Has.getD_value {ns : List Node} {w : String} (h : n.Has kind ns (some w)) :
    n.value.getD "" = w := by
  rw [h.value, Option.getD_some]

lemma Sound.numeral (h : n.Sound) (hk : n.kind = .number) :
    ∃ w, n.Has .number [] (some w) ∧ isNumeral w = true := by
  obtain ⟨w, hw⟩ := h.has_word hk rfl
  have hs := h.spelt
  rw [Node.spelt, hk, hw.value] at hs
  exact ⟨w, hw, hs⟩

end Node

/-! ### Expressions -/

/-- The expressions below a number of levels are read as they are written, if they
demand no more levels than are left. -/
def SpeaksBelow (n h : Nat) : Prop :=
  ∀ x : Node, x.Sound → x.kind.isExpression = true → x.height < h → x.demand ≤ n →
    ∃ s, Speaks n x s

section

variable {n : Nat} {e x : Node} {ns : List Node}

/-- Nodes of a list that are all names. -/
lemma named_of_sound (h : ∀ x ∈ ns, x.Sound) (hk : ∀ x ∈ ns, Node.is .identifier x = true) :
    ∃ ws, Named ns ws :=
  exists_forall₂ fun x hx => (h x hx).name (Node.is_iff.mp (hk x hx))

/-- The first words of names. -/
lemma Named.values {ws : List String} (h : Named ns ws) : ns.map (·.value.getD "") = ws := by
  induction h with
  | nil => rfl
  | cons hx _ ih => rw [List.map_cons, ih, hx.1.value, Option.getD_some]

/-- Names joined by dots are read as they are written. -/
theorem Node.Sound.speaksName (h : e.Sound) (hk : e.kind = .memberAccess) :
    ∃ s, SpeaksName n e s := by
  obtain ⟨x, xs, hcs, hx, hparts⟩ := fill_one_inv (h.parts hk)
  rw [fill_many_iff] at hparts
  obtain ⟨w, hw, hname⟩ := (h.child (by rw [hcs]; exact List.mem_cons_self)).name (is_iff.mp hx)
  obtain ⟨ws, hws⟩ := named_of_sound (fun y hy =>
    h.child (by rw [hcs]; exact List.mem_cons_of_mem x hy)) hparts
  have hvalue : e.value = some (Text.join "." (w :: ws)) := by
    have htext := h.obeys.text
    unfold worded at htext
    rw [hk] at htext
    rw [eq_of_beq htext, hcs, List.map_cons, hws.values, hw.value, Option.getD_some]
  have he := h.has hk
  rw [hcs, hvalue] at he
  exact ⟨_, StpLang.speaksName he hw hname hws⟩

/-- Named arguments below a node. -/
lemma SpeaksBelow.keywords {m : Nat} (h : SpeaksBelow n m) (hs : ∀ x ∈ ns, x.Sound)
    (hk : ∀ x ∈ ns, Node.is .keywordArg x = true) (hm : Node.maxHeight ns ≤ m)
    (hn : ∀ x ∈ ns, x.demand ≤ n) : ∃ ss, List.Forall₂ (SpeaksItem n .keyword) ns ss := by
  refine exists_forall₂ fun x hx => ?_
  have hkind := Node.is_iff.mp (hk x hx)
  obtain ⟨l, _, hcs, hl, hparts⟩ := fill_one_inv ((hs x hx).parts hkind)
  obtain ⟨r, _, rfl, hr, hparts⟩ := fill_one_inv hparts
  obtain rfl := fill_nil_inv hparts
  have hchild {c : Node} (hc : c ∈ [l, r]) : c.Sound ∧ c.height < m ∧ c.demand ≤ n := by
    rw [← hcs] at hc
    have := Node.height_le_of_mem hx
    exact ⟨(hs x hx).child hc, Nat.lt_of_lt_of_le (Node.height_lt_of_mem hc) (by omega),
      Nat.le_trans (Node.demand_le_of_mem hc) (hn x hx)⟩
  obtain ⟨w, hw, hname⟩ := (hchild (c := l) (by simp)).1.name (Node.is_iff.mp hl)
  obtain ⟨hrsound, hrheight, hrdemand⟩ := hchild (c := r) (by simp)
  obtain ⟨s, hs'⟩ := h r hrsound hr hrheight hrdemand
  have hhas := (hs x hx).has_none hkind rfl
  rw [hcs] at hhas
  exact ⟨_, item_keyword hhas hw hname hs'⟩

/-! ### Each kind of expression -/

namespace Node.Sound

lemma speaks_percentage (h : e.Sound) (hk : e.kind = .percentage) : ∃ s, Speaks n e s := by
  obtain ⟨w, he⟩ := h.has_word hk rfl
  have hs := h.spelt
  rw [Node.spelt, hk, he.value] at hs
  obtain ⟨v, rfl, hv⟩ := split_of_isPercentage hs
  exact ⟨_, StpLang.speaks_percentage he hv⟩

lemma speaks_range (h : e.Sound) (hk : e.kind = .range) : ∃ s, Speaks n e s := by
  have he := h.has_none hk rfl
  obtain ⟨x, _, hcs, hx, hparts⟩ := fill_one_inv (h.parts hk)
  have hchild {c : Node} (hc : c ∈ e.children) (hk : Node.is .number c = true) :=
    (h.child hc).numeral (is_iff.mp hk)
  rw [hcs] at he hchild
  obtain ⟨u, hu, hun⟩ := hchild List.mem_cons_self hx
  rcases fill_optional_inv hparts with hparts | ⟨y, _, rfl, hy, hparts⟩
  · obtain ⟨y, _, rfl, hy, hparts⟩ := fill_one_inv hparts
    obtain rfl := fill_nil_inv hparts
    obtain ⟨v, hv, hvn⟩ := hchild (c := y) (by simp) hy
    exact ⟨_, speaks_rangeOfTwo he hu hv hun hvn⟩
  · obtain ⟨z, _, rfl, hz, hparts⟩ := fill_one_inv hparts
    obtain rfl := fill_nil_inv hparts
    obtain ⟨v, hv, hvn⟩ := hchild (c := y) (by simp) hy
    obtain ⟨w, hw, hwn⟩ := hchild (c := z) (by simp) hz
    exact ⟨_, speaks_rangeOfThree he hu hv hw hun hvn hwn⟩

/-- An expression below a node is read as it is written. -/
lemma speaks_child (h : e.Sound) (hn : e.demand ≤ n) (hb : SpeaksBelow n e.height)
    (hx : x ∈ e.children) (hk : x.kind.isExpression = true) : ∃ s, Speaks n x s :=
  hb x (h.child hx) hk (Node.height_lt_of_mem hx) (Nat.le_trans (Node.demand_le_of_mem hx) hn)

lemma speaks_bracketed (h : e.Sound) (hk : e.kind = .bracketed) (hn : e.demand ≤ n)
    (hb : SpeaksBelow n e.height) : ∃ s, Speaks n e s := by
  have he := h.has_none hk rfl
  obtain ⟨x, _, hcs, hx, hparts⟩ := fill_one_inv (h.parts hk)
  obtain rfl := fill_nil_inv hparts
  obtain ⟨s, hs⟩ := h.speaks_child hn hb (by rw [hcs]; simp) hx
  rw [hcs] at he
  exact ⟨_, hs.bracketed he⟩

lemma speaks_suffix (h : e.Sound) (hk : e.kind = .suffix) (hn : e.demand ≤ n)
    (hb : SpeaksBelow n e.height) : ∃ s, Speaks n e s := by
  have he := h.has_none hk rfl
  obtain ⟨x, _, hcs, hx, hparts⟩ := fill_one_inv (h.parts hk)
  obtain ⟨o, _, rfl, ho, hparts⟩ := fill_one_inv hparts
  obtain rfl := fill_nil_inv hparts
  obtain ⟨s, hs⟩ := h.speaks_child hn hb (by rw [hcs]; simp)
    (Kind.isExpression_of_isTerm (Kind.isTerm_of_isOperand hx))
  obtain ⟨op, hop⟩ := (h.child (c := o) (by rw [hcs]; simp)).has_word (is_iff.mp ho) rfl
  have hspelt := h.spelt
  rw [Node.spelt, hk, hcs] at hspelt
  simp only [Bool.and_eq_true, Option.any_eq_true, Bool.not_eq_true',
    Bool.and_eq_false_imp] at hspelt
  obtain ⟨⟨kind, hkind, hsuffix⟩, hpercent⟩ := hspelt
  rw [hkind] at hpercent
  rw [Node.operator?, hop.value, Option.bind_some] at hkind
  rw [hcs] at he
  refine ⟨_, hs.suffix he hop hx hkind hsuffix fun hnumber => ?_⟩
  rintro rfl
  exact absurd (hpercent (beq_iff_eq.mpr hnumber)) (by simp)

lemma speaks_unary (h : e.Sound) (hk : e.kind = .unary) (hn : e.demand ≤ n)
    (hb : SpeaksBelow n e.height) : ∃ s, Speaks n e s := by
  have he := h.has_none hk rfl
  obtain ⟨o, _, hcs, ho, hparts⟩ := fill_one_inv (h.parts hk)
  obtain ⟨x, _, rfl, hx, hparts⟩ := fill_one_inv hparts
  obtain rfl := fill_nil_inv hparts
  obtain ⟨s, hs⟩ := h.speaks_child hn hb (x := x) (by rw [hcs]; simp) (Kind.isExpression_of_isTerm hx)
  obtain ⟨op, hop⟩ := (h.child (c := o) (by rw [hcs]; simp)).has_word (is_iff.mp ho) rfl
  have hspelt := h.spelt
  rw [Node.spelt, hk, hcs] at hspelt
  obtain ⟨kind, hkind, hunary⟩ := (Option.any_eq_true _ _).mp hspelt
  rw [Node.operator?, hop.value, Option.bind_some] at hkind
  rw [hcs] at he
  exact ⟨_, hs.prefixed he hop hx hkind hunary⟩

lemma speaks_binary (h : e.Sound) (hk : e.kind = .binary) (hn : e.demand ≤ n)
    (hb : SpeaksBelow n e.height) : ∃ s, Speaks n e s := by
  have he := h.has_none hk rfl
  obtain ⟨l, _, hcs, hl, hparts⟩ := fill_one_inv (h.parts hk)
  obtain ⟨o, _, rfl, ho, hparts⟩ := fill_one_inv hparts
  obtain ⟨r, _, rfl, hr, hparts⟩ := fill_one_inv hparts
  obtain rfl := fill_nil_inv hparts
  obtain ⟨s, hs⟩ := h.speaks_child hn hb (x := l) (by rw [hcs]; simp) hl
  obtain ⟨s', hs'⟩ := h.speaks_child hn hb (x := r) (by rw [hcs]; simp) hr
  obtain ⟨op, hop⟩ := (h.child (c := o) (by rw [hcs]; simp)).has_word (is_iff.mp ho) rfl
  have hspelt := h.spelt
  rw [Node.spelt, hk, hcs] at hspelt
  obtain ⟨⟨level, assoc⟩, hbinary, hlevels⟩ := (Option.any_eq_true _ _).mp hspelt
  rw [Bool.and_eq_true, decide_eq_true_eq, decide_eq_true_eq] at hlevels
  obtain ⟨kind, hkind, hbinding⟩ := Option.bind_eq_some_iff.mp hbinary
  rw [Node.operator?, hop.value, Option.bind_some] at hkind
  rw [hcs] at he
  exact ⟨_, hs.binary he hop hs' hkind hbinding hlevels.1 hlevels.2⟩

/-- A row of a matrix. -/
lemma speaks_row {m : Nat} {kind : Kind} (h : x.Sound) (hb : SpeaksBelow n m) (hm : x.height ≤ m)
    (hn : x.demand ≤ n) (hk : x.kind = kind) (hkind : kind = .matrixRow ∨ kind = .lastRow) :
    ∃ s, SpeaksRow n kind x s := by
  have hx : x.Has kind x.children none :=
    h.has_none hk (by rcases hkind with rfl | rfl <;> rfl)
  have hparts : fill [.one (Node.of Kind.isExpression), .many (Node.of Kind.isExpression)]
      x.children = true := by
    have := h.parts hk
    rcases hkind with rfl | rfl <;> exact this
  obtain ⟨y, ys, hcs, hy, hparts⟩ := fill_one_inv hparts
  rw [fill_many_iff] at hparts
  have hchild {c : Node} (hc : c ∈ x.children) (hk : Node.of Kind.isExpression c = true) :
      ∃ s, Speaks n c s :=
    hb c (h.child hc) hk (Nat.lt_of_lt_of_le (Node.height_lt_of_mem hc) hm)
      (Nat.le_trans (Node.demand_le_of_mem hc) hn)
  have hmod : ∀ z ∈ ys, z.beginsWithMod = false := by
    have hspelt := h.spelt
    rw [Node.spelt, hk, hcs] at hspelt
    have hall : ys.all (!·.beginsWithMod) = true := by
      rcases hkind with rfl | rfl <;> exact hspelt
    simpa using hall
  rw [hcs] at hx hchild
  obtain ⟨s, hs⟩ := hchild List.mem_cons_self hy
  obtain ⟨ss, hss⟩ : ∃ ss, List.Forall₂ (Speaks n) ys ss := exists_forall₂ fun z hz =>
    hchild (List.mem_cons_of_mem y hz) (hparts z hz)
  exact ⟨_, y, ys, s, ss, hx, hs, hss, hmod, rfl⟩

lemma speaks_matrix (h : e.Sound) (hk : e.kind = .matrix) (hn : e.demand ≤ n)
    (hb : SpeaksBelow n e.height) : ∃ s, Speaks n e s := by
  have he := h.has_none hk rfl
  obtain ⟨xs, _, hcs, hxs, hparts⟩ := fill_many_inv (h.parts hk)
  obtain ⟨x, _, rfl, hx, hparts⟩ := fill_one_inv hparts
  obtain rfl := fill_nil_inv hparts
  have hrow {kind : Kind} {y : Node} (hy : y ∈ e.children) (hk : Node.is kind y = true)
      (hkind : kind = .matrixRow ∨ kind = .lastRow) : ∃ s, SpeaksRow n kind y s :=
    (h.child hy).speaks_row hb (Nat.le_of_lt (Node.height_lt_of_mem hy))
      (Nat.le_trans (Node.demand_le_of_mem hy) hn) (is_iff.mp hk) hkind
  rw [hcs] at he hrow
  obtain ⟨ss, hss⟩ := exists_forall₂ fun y hy =>
    hrow (List.mem_append_left _ hy) (hxs y hy) (.inl rfl)
  obtain ⟨s, hs⟩ := hrow (by simp) hx (.inr rfl)
  exact ⟨_, StpLang.speaks_matrix he hss hs⟩

/-- The arguments between two parentheses. -/
lemma items {m : Nat} {kind : Kind} (h : x.Sound) (hb : SpeaksBelow n m) (hm : x.height ≤ m)
    (hn : x.demand ≤ n) (hx : Node.holding kind Kind.isExpression x = true) :
    ∃ ss, List.Forall₂ (SpeaksItem n .value) x.children ss := by
  rw [Node.holding, Bool.and_eq_true, List.all_eq_true] at hx
  refine exists_forall₂ fun y hy => ?_
  obtain ⟨s, hs⟩ := hb y (h.child hy) (hx.2 y hy)
    (Nat.lt_of_lt_of_le (Node.height_lt_of_mem hy) hm)
    (Nat.le_trans (Node.demand_le_of_mem hy) hn)
  exact ⟨s, hs.item⟩

lemma speaks_call (h : e.Sound) (hk : e.kind = .call) (hn : e.demand ≤ n)
    (hb : SpeaksBelow n e.height) : ∃ s, Speaks n e s := by
  have he := h.has_none hk rfl
  obtain ⟨f, _, hcs, hf, hparts⟩ := fill_one_inv (h.parts hk)
  obtain ⟨p, _, rfl, hp, hparts⟩ := fill_one_inv hparts
  obtain ⟨q, _, rfl, hq, hparts⟩ := fill_one_inv hparts
  obtain rfl := fill_nil_inv hparts
  have hchild {c : Node} (hc : c ∈ e.children) :
      c.Sound ∧ c.height < e.height ∧ c.demand ≤ n :=
    ⟨h.child hc, Node.height_lt_of_mem hc, Nat.le_trans (Node.demand_le_of_mem hc) hn⟩
  rw [hcs] at he hchild
  obtain ⟨s, hs⟩ := (hchild (c := f) (by simp)).1.speaksName (is_iff.mp hf)
  obtain ⟨hpsound, hpheight, hpdemand⟩ := hchild (c := p) (by simp)
  obtain ⟨hqsound, hqheight, hqdemand⟩ := hchild (c := q) (by simp)
  obtain ⟨ss, hss⟩ := hpsound.items hb (Nat.le_of_lt hpheight) hpdemand hp
  have hpkind : p.kind = .positionalArgs := by
    rw [Node.holding, Bool.and_eq_true, beq_iff_eq] at hp
    exact hp.1
  have hqparts := hqsound.parts (is_iff.mp hq)
  rw [Kind.parts, fill_many_iff] at hqparts
  obtain ⟨rs, hrs⟩ := hb.keywords (fun y hy => hqsound.child hy) hqparts (by
    rw [Node.height_eq] at hqheight
    omega) fun y hy => Nat.le_trans (Node.demand_le_of_mem hy) hqdemand
  exact ⟨_, hs.call he (hpsound.has_none hpkind rfl) (hqsound.has_none (is_iff.mp hq) rfl) hss hrs⟩

end Node.Sound

/-! ### Strings -/

/-- A piece of a string before others. -/
lemma strung_cons {ps : List String} (h : x.Sound)
    (hpiece : x.isPiece (Node.leadingChars ns) = true) (hn : x.demand ≤ n)
    (hb : ∀ m, SpeaksBelow m x.height) (hs : Strung n ns ps) : ∃ rs, Strung n (x :: ns) rs := by
  unfold Node.isPiece at hpiece
  split at hpiece
  · rename_i hkind
    obtain ⟨w, hw⟩ := h.has_word hkind rfl
    rw [hw.getD_value] at hpiece
    simp only [Bool.and_eq_true, Bool.not_eq_true', List.isEmpty_eq_false_iff, List.all_eq_true,
      List.isEmpty_iff] at hpiece
    exact ⟨_, hs.chars hw hpiece.1.1 hpiece.1.2 hpiece.2⟩
  · rename_i z hkind htext
    obtain ⟨w, hw⟩ := h.has_word hkind rfl
    rw [hw.getD_value] at htext
    exact ⟨_, hs.escape hw htext hpiece⟩
  · rename_i w digits hkind htext hcs
    rw [Bool.and_eq_true, beq_iff_eq, beq_iff_eq] at hpiece
    have hdigits : digits.kind = .hexDigits := by
      have hparts := h.parts hkind
      rw [hcs] at hparts
      obtain ⟨_, _, ⟨⟩, hd, -⟩ := fill_one_inv hparts
      exact Node.is_iff.mp hd
    obtain ⟨v, hv⟩ := (h.child (c := digits) (by rw [hcs]; simp)).has_word hdigits rfl
    obtain rfl : v = String.ofList w := Option.some.inj (hv.value.symm.trans hpiece.2)
    obtain ⟨s, hs'⟩ : ∃ s, x.value = some s := by
      cases hx : x.value with
      | none =>
        rw [hx] at htext
        cases htext
      | some s => exact ⟨s, rfl⟩
    have hx := h.has hkind
    rw [hcs, hs'] at hx
    rw [hx.getD_value] at htext
    exact ⟨_, hs.unicode hx hv htext hpiece.1⟩
  · rename_i w hkind htext
    obtain ⟨v, hv⟩ := h.has_word hkind rfl
    rw [hv.getD_value] at htext
    rw [Bool.and_eq_true, beq_iff_eq, List.all_eq_true] at hpiece
    exact ⟨_, hs.octal hv htext hpiece.1 hpiece.2⟩
  · rename_i hkind
    have hx := h.has_none hkind rfl
    obtain ⟨y, _, hcs, hy, hparts⟩ := fill_one_inv (h.parts hkind)
    obtain rfl := fill_nil_inv hparts
    have hmem : y ∈ x.children := by rw [hcs]; simp
    rw [hcs] at hx
    -- the expression of a snippet enters a level
    rw [show x.demand = Node.toll [y] from hx.demand_eq, Node.toll_cons, Node.toll_nil] at hn
    obtain ⟨m, rfl⟩ : ∃ m, n = m + 1 := ⟨n - 1, by omega⟩
    obtain ⟨s, hy⟩ := hb m y (h.child hmem) hy (Node.height_lt_of_mem hmem) (by omega)
    exact ⟨_, hs.snippet hx hy⟩
  · cases hpiece

/-- The pieces of a string, with the snippets among them. -/
lemma strung_of_segmented (h : ∀ x ∈ ns, x.Sound) (hseg : Node.segmented ns = true)
    (hn : ∀ x ∈ ns, x.demand ≤ n) (hb : ∀ m, SpeaksBelow m (Node.maxHeight ns)) :
    ∃ ps, Strung n ns ps := by
  induction ns with
  | nil => exact ⟨[], .nil⟩
  | cons x ns ih =>
    rw [List.forall_mem_cons] at h hn
    rw [Node.segmented, Bool.and_eq_true] at hseg
    rw [Node.maxHeight_cons] at hb
    obtain ⟨ps, hps⟩ := ih h.2 hseg.2 hn.2 fun m y hy hk hlt => hb m y hy hk (by omega)
    exact strung_cons h.1 hseg.1 hn.1 (fun m y hy hk hlt => hb m y hy hk (by omega)) hps

/-! ### All expressions -/

/-- **Every expression is read as it is written**, when as many levels of snippets
may be entered as the expression demands. -/
theorem Node.Sound.speaks (h : e.Sound) (hk : e.kind.isExpression = true) (hn : e.demand ≤ n) :
    ∃ s, Speaks n e s := by
  generalize hm : e.height = m
  induction m using Nat.strongRecOn generalizing e n with
  | ind m ih =>
    subst hm
    have hbelow (m : Nat) : SpeaksBelow m e.height :=
      fun x hx hk hlt hm => ih x.height hlt hx hk hm rfl
    have hb := hbelow n
    generalize hkind : e.kind = kind at hk
    cases kind with
    | memberAccess =>
      obtain ⟨s, hs⟩ := h.speaksName hkind
      exact ⟨s, hs.speaks⟩
    | number =>
      obtain ⟨w, hw, hnumeral⟩ := h.numeral hkind
      exact ⟨w, speaks_number hw hnumeral⟩
    | percentage => exact h.speaks_percentage hkind
    | range => exact h.speaks_range hkind
    | bracketed => exact h.speaks_bracketed hkind hn hb
    | suffix => exact h.speaks_suffix hkind hn hb
    | unary => exact h.speaks_unary hkind hn hb
    | binary => exact h.speaks_binary hkind hn hb
    | matrix => exact h.speaks_matrix hkind hn hb
    | call => exact h.speaks_call hkind hn hb
    | string =>
      have hheight := e.height_eq
      have hseg := h.spelt
      rw [Node.spelt, hkind] at hseg
      obtain ⟨ps, hps⟩ := strung_of_segmented (fun x hx => h.child hx) hseg
        (fun x hx => Nat.le_trans (Node.demand_le_of_mem hx) hn)
        fun m x hx hk hlt => hbelow m x hx hk (by omega)
      exact ⟨_, hps.speaks (h.has_none hkind rfl)⟩
    | _ => cases hk

end

end StpLang
