import StpLang.Proofs.LoopControl
import StpLang.Proofs.RoundTrip
import StpLang.Proofs.RoundTrip.Readable

/-!
Showing a program as text keeps the program.

The text of a tree that has been read is accepted under the limit of the program
itself, and it is a fixed point: the tree that is read from it has the same text. The
commas between the elements of a matrix row are not shown, and only where one of them
keeps a name `mod` from its neighbours may its absence matter.

* `Node.Parted` says that no comma of a row keeps a `mod` apart.
* `wellFormed_of_parse`: the tree of such a program is well-formed.
* `Node.bare` forgets places, and `render_eq_of_sameStructure` shows that the text of a
  tree does not depend on them.
* `parse_reformatted` is the result.
-/

namespace StpLang

open Source

/-! ### Places -/

namespace Node

mutual

/-- The node without its places. -/
def bare : Node → Node
  | ⟨kind, value, _, _, _, _, children, fields⟩ =>
    ⟨kind, value, 0, 0, 0, 0, bares children, fields⟩

/-- The nodes without their places. -/
def bares : List Node → List Node
  | [] => []
  | n :: ns => n.bare :: bares ns

end

variable {n m : Node} {ns : List Node}

lemma bares_eq_map (ns : List Node) : bares ns = ns.map bare := by
  induction ns with
  | nil => rw [bares, List.map_nil]
  | cons n ns ih => rw [bares, ih, List.map_cons]

@[simp] lemma length_bares (ns : List Node) : (bares ns).length = ns.length := by
  rw [bares_eq_map, List.length_map]

@[simp] lemma bare_kind (n : Node) : n.bare.kind = n.kind := by
  cases n
  rw [bare]

@[simp] lemma bare_value (n : Node) : n.bare.value = n.value := by
  cases n
  rw [bare]

mutual

/-- Where the schema is obeyed, nodes with the same structure differ in their places
only. -/
lemma bare_eq_of_agrees : (n m : Node) → n.Formed → m.Formed → agrees false n m = true →
    n.bare = m.bare
  | ⟨kind, value, _, _, _, _, children, fields⟩,
    ⟨kind', value', _, _, _, _, children', fields'⟩ => by
    intro hn hm h
    obtain ⟨hobeys, hbelow⟩ := formed_iff.mp hn
    obtain ⟨hobeys', hbelow'⟩ := formed_iff.mp hm
    simp only [agrees, Bool.and_eq_true, beq_iff_eq] at h
    obtain ⟨⟨⟨⟨rfl, rfl⟩, -⟩, -⟩, hall⟩ := h
    have hchildren := bares_eq_of_allAgree children children' hbelow hbelow' hall
    have hlength := congrArg List.length hchildren
    rw [length_bares, length_bares] at hlength
    have hfields : fields = fields' := by
      rw [show fields = kind.labels children.length from hobeys.labels,
        show fields' = kind.labels children'.length from hobeys'.labels, hlength]
    rw [bare, bare, hchildren, hfields]

lemma bares_eq_of_allAgree : (ns ms : List Node) → (∀ c ∈ ns, c.Formed) → (∀ c ∈ ms, c.Formed) →
    allAgree false ns ms = true → bares ns = bares ms
  | [], [] => fun _ _ _ => rfl
  | n :: ns, m :: ms => by
    intro hns hms h
    rw [List.forall_mem_cons] at hns hms
    rw [allAgree, Bool.and_eq_true] at h
    rw [bares, bares, bare_eq_of_agrees n m hns.1 hms.1 h.1,
      bares_eq_of_allAgree ns ms hns.2 hms.2 h.2]
  | [], _ :: _ => fun _ _ h => by simp [allAgree] at h
  | _ :: _, [] => fun _ _ h => by simp [allAgree] at h

end

end Node

namespace Source

open Node

lemma operatorAt_bares (position : Option Nat) (ns : List Node) :
    operatorAt position (bares ns) = operatorAt position ns := by
  rw [operatorAt, operatorAt, bares_eq_map]
  cases position with
  | none => rfl
  | some i =>
    rw [Option.bind_some, Option.bind_some, List.getElem?_map]
    cases ns[i]? <;> simp

mutual

lemma expressionAs_bare (kind : Kind) : (n : Node) → expressionAs kind n.bare = expressionAs kind n
  | ⟨_, _, _, _, _, _, children, _⟩ => by
    rw [bare]
    unfold expressionAs
    simp only [textAt_bares _ children, texts_bares children, operatorAt_bares,
      textsBelow_bares _ children, rowTexts_bares children, segmentTexts_bares children]
    cases children <;> rfl

lemma textAt_bares (position : Option Nat) : (ns : List Node) →
    textAt position (bares ns) = textAt position ns
  | [] => by rw [bares]
  | n :: ns => by
    rw [bares]
    cases position with
    | none => rw [textAt, textAt]
    | some i =>
      cases i with
      | zero => rw [textAt, textAt, bare_kind, expressionAs_bare _ n]
      | succ i => rw [textAt, textAt, textAt_bares _ ns]

lemma texts_bares : (ns : List Node) → texts (bares ns) = texts ns
  | [] => by rw [bares]
  | n :: ns => by rw [bares, texts, texts, bare_kind, expressionAs_bare _ n, texts_bares ns]

lemma textsBelow_bares (position : Option Nat) : (ns : List Node) →
    textsBelow position (bares ns) = textsBelow position ns
  | [] => by rw [bares]
  | ⟨_, _, _, _, _, _, children, _⟩ :: ns => by
    rw [bares, bare]
    cases position with
    | none => rw [textsBelow, textsBelow]
    | some i =>
      cases i with
      | zero => rw [textsBelow, textsBelow, texts_bares children]
      | succ i => rw [textsBelow, textsBelow, textsBelow_bares _ ns]

lemma rowTexts_bares : (ns : List Node) → rowTexts (bares ns) = rowTexts ns
  | [] => by rw [bares]
  | ⟨_, _, _, _, _, _, children, _⟩ :: ns => by
    rw [bares, bare, rowTexts, rowTexts, texts_bares children, rowTexts_bares ns]

lemma segmentTexts_bares : (ns : List Node) → segmentTexts (bares ns) = segmentTexts ns
  | [] => by rw [bares]
  | ⟨_, _, _, _, _, _, children, _⟩ :: ns => by
    rw [bares, bare, segmentTexts, segmentTexts, textAt_bares _ children, segmentTexts_bares ns]

end

mutual

lemma statement_bare : (n : Node) → statement n.bare = statement n
  | ⟨kind, value, line, col, start, stop, children, fields⟩ => by
    have hexpression (k : Kind) :=
      expressionAs_bare k ⟨kind, value, line, col, start, stop, children, fields⟩
    have hempty : (bares children).isEmpty = children.isEmpty := by cases children <;> rfl
    rw [bare] at hexpression ⊢
    unfold statement
    simp only [textAt_bares, textsBelow_bares, statements_bares children,
      statementsBelow_bares _ children, clauses_bares _ children, hempty, expression, hexpression]

lemma statements_bares : (ns : List Node) → statements (bares ns) = statements ns
  | [] => by rw [bares]
  | n :: ns => by rw [bares, statements, statements, statement_bare n, statements_bares ns]

lemma statementsBelow_bares (position : Option Nat) : (ns : List Node) →
    statementsBelow position (bares ns) = statementsBelow position ns
  | [] => by rw [bares]
  | ⟨_, _, _, _, _, _, children, _⟩ :: ns => by
    rw [bares, bare]
    cases position with
    | none => rw [statementsBelow, statementsBelow]
    | some i =>
      cases i with
      | zero => rw [statementsBelow, statementsBelow, statements_bares children]
      | succ i => rw [statementsBelow, statementsBelow, statementsBelow_bares _ ns]

lemma clauses_bares (skipped : Nat) : (ns : List Node) →
    clauses skipped (bares ns) = clauses skipped ns
  | [] => by rw [bares]
  | ⟨_, _, _, _, _, _, children, _⟩ :: ns => by
    rw [bares, bare]
    cases skipped with
    | zero =>
      rw [clauses, clauses, textAt_bares, statementsBelow_bares _ children, clauses_bares 0 ns]
    | succ i => rw [clauses, clauses, clauses_bares i ns]

end

end Source

/-- The text of a program does not depend on places. -/
lemma render_eq_of_sameStructure {t u : Tree} (hk : t.root.kind = .sourceFile)
    (ht : t.root.Formed) (hu : u.root.Formed) (h : t.root.sameStructure u.root = true) :
    Target.stp.render u = Target.stp.render t := by
  have hbare := Node.bare_eq_of_agrees _ _ ht hu h
  have hkind : u.root.kind = t.root.kind := by rw [← Node.bare_kind, ← hbare, Node.bare_kind]
  have hstatement : statement u.root = statement t.root := by
    rw [← statement_bare, ← hbare, statement_bare]
  rw [Target.render, Target.render, show Emitter.start .stp = .source {} from rfl, Emitter.addAny,
    Emitter.addAny, hkind, hstatement, hk]
  rfl

/-! ### Programs that have been read -/

/-- In no row of the subtree does an element but the first begin with the name `mod`. -/
def Node.Parted (n : Node) : Prop := ∀ m ∈ n.walk, m.kind = .matrixRow ∨ m.kind = .lastRow →
  m.children.tail.all (!·.beginsWithMod) = true

instance (n : Node) : Decidable n.Parted :=
  inferInstanceAs (Decidable (∀ m ∈ n.walk, m.kind = .matrixRow ∨ m.kind = .lastRow →
    m.children.tail.all (!·.beginsWithMod) = true))

/-- A node whose rows need no commas shows what can be read. -/
lemma Node.Readable.spelt {n : Node} (h : n.Readable) (hp : n.Parted) :
    ∀ m ∈ n.walk, m.spelt = true := by
  intro m hm
  by_cases hk : m.kind = .matrixRow ∨ m.kind = .lastRow
  · have helements := hp m hm hk
    rcases hk with hk | hk <;> rw [Node.spelt, hk] <;> exact helements
  · rw [not_or] at hk
    exact h m hm hk.1 hk.2

section

variable {source : String} {limit : Int} {t : Tree} {ts us : List Token} {e : Token}
  {ns : List Node}

lemma Accepted.regular (h : Accepted source limit ts us e ns) : ∀ u ∈ us, u.Regular :=
  fun u hu _ => ⟨_, h.spelled u hu⟩

/-- A program that is accepted demands no more levels than the limit allows. -/
lemma Accepted.demand_le (h : Accepted source limit ts us e ns) :
    (programTree ts us e ns).root.demand ≤ limit.toNat := by
  have htoll : Node.toll ns ≤ limit.toNat + 1 := h.derives.toll_le h.regular trivial
  rw [programTree, Tree.ofNode, Node.demand_spanning]
  exact Nat.sub_le_of_le_add htoll

lemma Accepted.readable (h : Accepted source limit ts us e ns) :
    (programTree ts us e ns).root.Readable :=
  Node.readable_spanning rfl (h.derives.readable h.regular trivial)

/-- The tree of a program whose rows need no commas is well-formed. -/
lemma wellFormed_of_parse (h : parse source true limit = .ok t) (hp : t.root.Parted) :
    t.WellFormed ∧ t.root.demand ≤ limit.toNat := by
  obtain ⟨hk, hformed⟩ := formed_of_readFrom h
  have hcontrolled := controlled_of_readFrom h
  obtain ⟨ts, us, e, ns, haccepted, rfl⟩ := parse_strict_iff.mp h
  exact ⟨⟨hk, hformed, haccepted.readable.spelt hp, hcontrolled⟩, haccepted.demand_le⟩

end

/-- **Formatting keeps the program.** Where a strict reader accepts a text, and no element
of a matrix row but the first begins with the name `mod`, the tree has a text that is
accepted under the same limit, with a tree of the same structure. Showing this tree gives
the text again. -/
theorem parse_reformatted {source : String} {limit : Int} {t : Tree}
    (h : parse source true limit = .ok t) (hp : t.root.Parted) :
    ∃ text u, Target.stp.render t = .ok text ∧ parse text true limit = .ok u
      ∧ t.root.sameStructure u.root = true ∧ Target.stp.render u = .ok text := by
  obtain ⟨hwell, hdemand⟩ := wellFormed_of_parse h hp
  obtain ⟨text, u, hrender, hparse, hsame⟩ := hwell.exists_parse hdemand
  have hformed := (formed_of_readFrom hparse).2
  refine ⟨text, u, hrender, hparse, hsame, ?_⟩
  rw [render_eq_of_sameStructure hwell.root hwell.formed hformed hsame]
  exact hrender

/-- A matrix with a name `mod`, signs and a comment behind it, and a condition with a
string between whose digits a snippet stands. -/
def tersely : String :=
  "x=[mod,-a^-2;b'  (c)]#d\nwhile x\x7bif f(1,k=\"\\x41\\\x7b-1%\\\x7df\")\x7bcont\x7d elseif y\x7b\x7d\x7d"

/-- The same program with one statement on a line. -/
def tidily : String :=
  "x = [mod -a ^ -2; b' (c)]\n#d\nwhile x \x7b\n    if f(1, k=\"\\x41\\\x7b-1%\\\x7df\") \x7b\n"
    ++ "        cont\n    \x7d elseif y \x7b\n    \x7d\n\x7d\n"

/-- The program is laid out anew and accepted again under the least limit under which it
has been. -/
theorem parse_reformatted_tersely :
    ∃ t u, parse tersely true 7 = .ok t ∧ t.root.Parted ∧ Target.stp.render t = .ok tidily
      ∧ parse tidily true 7 = .ok u ∧ t.root.sameStructure u.root = true
      ∧ Target.stp.render u = .ok tidily ∧ (parse tersely true 6).toOption.isNone = true := by
  obtain ⟨t, h, hshown⟩ := exists_of_map_toOption (show (parse tersely true 7).toOption.map
    (fun t => (decide t.root.Parted, (Target.stp.render t).toOption)) = some (true, some tidily)
      by decide +kernel)
  obtain ⟨hparted, htext⟩ := Prod.mk.inj hshown
  have hp := of_decide_eq_true hparted
  obtain ⟨text, u, hrender, hu, hsame, hagain⟩ := parse_reformatted h hp
  rw [hrender] at htext
  obtain rfl : text = tidily := Option.some.inj htext
  exact ⟨t, u, h, hp, hrender, hu, hsame, hagain, by decide +kernel⟩

/-- Without its commas a row of three names is a row of one element, in which `mod` is an
operator. -/
theorem matrix_fused :
    ∃ t text u, parse "[a,mod,b]" true 8 = .ok t ∧ Target.stp.render t = .ok text
      ∧ text = "[a mod b]\n" ∧ parse text true 8 = .ok u
      ∧ t.root.sameStructure u.root = false := by
  obtain ⟨t, ht, htext⟩ := exists_of_map_toOption (show (parse "[a,mod,b]" true 8).toOption.map
    (fun t => (Target.stp.render t).toOption) = some (some "[a mod b]\n") by decide +kernel)
  obtain ⟨u, hu, hsame⟩ := exists_of_map_toOption (show (parse "[a mod b]\n" true 8).toOption.map
    (fun u => (parse "[a,mod,b]" true 8).toOption.map fun t => t.root.sameStructure u.root)
      = some (some false) by decide +kernel)
  rw [ht] at hsame
  cases hrender : Target.stp.render t with
  | error e =>
    rw [hrender] at htext
    cases htext
  | ok text =>
    rw [hrender] at htext
    obtain rfl : text = "[a mod b]\n" := Option.some.inj htext
    exact ⟨t, _, u, ht, hrender, rfl, hu, Option.some.inj hsame⟩

end StpLang
