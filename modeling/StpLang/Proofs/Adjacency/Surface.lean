import StpLang.Proofs.Adjacency.Text

/-!
White space within expressions.

In a row of a matrix white space separates elements, elsewhere it does not. A row ends
where parentheses, arguments, matrices or strings begin: what stands in them does not lie
on the surface of its elements.

* `Node.surface` lists the nodes of an expression outside all that it encloses, and
  `Node.enclosed` the expressions to which white space means nothing.
* `Node.Tight` and `Node.Neighbours` say how the elements of a row are written.
* `Node.Joins` says that an operator behind an operand takes it, and a parenthesis behind
  a name makes a call.
* `Node.Fine` says all this of an expression up to its end; the lemmas behind it go from
  the parts of an expression to the whole.
-/

namespace StpLang

open Grammar

/-! ### The surface of an expression -/

/-- The nodes that shut off what stands in them from the elements around them. -/
def Kind.shuts : Kind → Bool
  | .bracketed | .matrix | .string | .positionalArgs | .keywordArgs => true
  | _ => false

namespace Node

mutual

/-- The node and what stands in it outside parentheses, arguments, matrices and
strings. -/
def surface : Node → List Node
  | ⟨kind, value, line, col, start, stop, children, fields⟩ =>
    ⟨kind, value, line, col, start, stop, children, fields⟩
      :: if kind.shuts then [] else surfaces children

/-- The surfaces of several nodes. -/
def surfaces : List Node → List Node
  | [] => []
  | n :: ns => surface n ++ surfaces ns

end

/-- The expressions that stand directly in the parentheses, in the call or in the
snippet that the node is. -/
def enclosed (n : Node) : List Node :=
  match n.kind with
  | .bracketed | .snippet => n.children
  | .call => (n.labelled .posArgs).flatMap children
      ++ ((n.labelled .keywordArgs).flatMap children).flatMap (·.labelled .argumentValue)
  | _ => []

end Node

/-- A sign stands at an offset. -/
def SignAt (cs : List Char) (i : Nat) : Prop := cs[i]? = some '+' ∨ cs[i]? = some '-'

/-- On the surface of an element a sign that is a binary operator has white space on both
sides or none before it, and calls and member accesses are written without. -/
structure Node.Tight (cs : List Char) (n : Node) : Prop where
  sign : n.kind = .binary → ∀ op rhs, n.field? .operator = some op → n.field? .rhs = some rhs →
    SignAt cs op.start → ¬(SpaceBehind cs op.start ∧ rhs.start = op.stop)
  call : n.kind = .call → ∀ target args, n.field? .fnName = some target →
    n.field? .posArgs = some args → args.start = target.stop ∧ cs[target.stop]? = some '('
  dots : n.kind = .memberAccess → n.children.IsChain fun part _ => cs[part.stop]? = some '.'

/-- Two elements that follow each other have a comma between them, or white space and
comments alone; a sign that then begins the second stands behind white space and right
before the next token. -/
def Node.Neighbours (cs : List Char) (x y : Node) : Prop :=
  (∃ i, Between cs x.stop i ∧ cs[i]? = some ',' ∧ Between cs (i + 1) y.start)
    ∨ (Between cs x.stop y.start
      ∧ (SignAt cs y.start → SpaceBehind cs y.start ∧ Solid cs (y.start + 1)))

/-- Behind the part `x` of an expression, whatever the white space, a sign is a binary
operator if `x` is an operand, and a parenthesis opens the arguments of a call if `x` is
a name. -/
structure Node.Joins (cs : List Char) (e x : Node) : Prop where
  sign : x.kind ≠ .operator → ∀ i, Between cs x.stop i → SignAt cs i →
    ∃ b ∈ e.surface, b.kind = .binary ∧ ∃ op, b.field? .operator = some op ∧ op.start = i
  call : x.kind = .identifier → ∀ i, Between cs x.stop i → cs[i]? = some '(' →
    ∃ c ∈ e.surface, c.kind = .call ∧ ∃ target args, c.field? .fnName = some target
      ∧ c.field? .posArgs = some args ∧ target.stop = x.stop ∧ args.start = i

/-- White space separates the elements of the row that the node may be, and means nothing
to the expressions that it may enclose. -/
structure Node.Spaces (cs : List Char) (n : Node) : Prop where
  tight : n.kind = .matrixRow ∨ n.kind = .lastRow → ∀ e ∈ n.children, ∀ x ∈ e.surface, x.Tight cs
  neighbours : n.kind = .matrixRow ∨ n.kind = .lastRow → n.children.IsChain (Node.Neighbours cs)
  joins : ∀ e ∈ n.enclosed, ∀ x ∈ e.surface, e.Joins cs x

namespace Node

variable {cs : List Char} {n m c x e : Node}

lemma surfaces_eq (ns : List Node) : surfaces ns = ns.flatMap surface := by
  induction ns with
  | nil => rfl
  | cons n ns ih => rw [surfaces, ih, List.flatMap_cons]

lemma surface_eq (n : Node) :
    n.surface = n :: if n.kind.shuts then [] else n.children.flatMap surface := by
  obtain ⟨kind, value, line, col, start, stop, children, fields⟩ := n
  rw [surface, surfaces_eq]

lemma mem_surface_self (n : Node) : n ∈ n.surface := by
  rw [surface_eq]
  exact List.mem_cons_self

lemma surface_of_shuts (h : n.kind.shuts = true) : n.surface = [n] := by
  rw [surface_eq, if_pos h]

lemma forall_mem_surface {P : Node → Prop} (h : n.kind.shuts = false) :
    (∀ x ∈ n.surface, P x) ↔ P n ∧ ∀ c ∈ n.children, ∀ x ∈ c.surface, P x := by
  rw [surface_eq, h, List.forall_mem_cons]
  simp only [Bool.false_eq_true, if_false, List.mem_flatMap]
  refine and_congr_right fun _ => ⟨fun h c hc x hx => h x ⟨c, hc, hx⟩, ?_⟩
  rintro h x ⟨c, hc, hx⟩
  exact h c hc x hx

/-- What lies on the surface of a child lies on the surface of the node. -/
lemma mem_surface_child (h : n.kind.shuts = false) (hc : c ∈ n.children) (hx : x ∈ c.surface) :
    x ∈ n.surface :=
  (forall_mem_surface (P := (· ∈ n.surface)) h).mp (fun _ hx => hx) |>.2 c hc x hx

lemma mem_walk_of_mem_surface (hx : x ∈ n.surface) : x ∈ n.walk := by
  induction n using induction_children with
  | h n ih =>
    rw [surface_eq, List.mem_cons] at hx
    rw [walk_eq, List.mem_cons, List.mem_flatMap]
    refine hx.imp_right fun hx => ?_
    split at hx
    · cases hx
    · obtain ⟨c, hc, hx⟩ := List.mem_flatMap.mp hx
      exact ⟨c, hc, ih c hc hx⟩

/-- What lies in a subtree ends no later than its root. -/
lemma Fits.stop_le (h : n.Fits cs) (hx : x ∈ n.walk) : x.stop ≤ n.stop := by
  induction n using induction_children with
  | h n ih =>
    rw [walk_eq, List.mem_cons, List.mem_flatMap] at hx
    rcases hx with rfl | ⟨c, hc, hx⟩
    · exact Nat.le_refl _
    · exact Nat.le_trans (ih c hc ((fits_iff.mp h).2 c hc) hx) (h.framed.holds c hc).2

/-! ### Nodes about which there is little to say -/

lemma Tight.of_kind (h : n.kind ∉ [.binary, .call, .memberAccess]) : n.Tight cs := by
  refine ⟨fun hk => ?_, fun hk => ?_, fun hk => ?_⟩ <;> exact absurd (by simp [hk]) h

lemma Spaces.of_enclosed (h : n.kind ∉ [.matrixRow, .lastRow])
    (hj : ∀ e ∈ n.enclosed, ∀ x ∈ e.surface, e.Joins cs x) : n.Spaces cs := by
  simp only [List.mem_cons, List.not_mem_nil, or_false] at h
  exact ⟨fun hk => absurd hk h, fun hk => absurd hk h, hj⟩

lemma Spaces.of_kind (h : n.kind ∉ [.matrixRow, .lastRow, .bracketed, .snippet, .call]) :
    n.Spaces cs := by
  simp only [List.mem_cons, List.not_mem_nil, or_false, not_or] at h
  obtain ⟨h1, h2, h3, h4, h5⟩ := h
  have henclosed : n.enclosed = [] := by
    unfold enclosed
    split <;> first | rfl | contradiction
  exact .of_enclosed (by simp [h1, h2]) (by simp [henclosed])

lemma spaces_leaf {kind : Kind} {t : Token}
    (h : kind ∉ [.matrixRow, .lastRow, .bracketed, .snippet, .call]) :
    ∀ x ∈ (leaf kind t).walk, x.Spaces cs :=
  (forall_mem_walk _).mpr ⟨.of_kind h, fun _ hc => (List.not_mem_nil hc).elim⟩

lemma surface_leaf {kind : Kind} {t : Token} : (leaf kind t).surface = [leaf kind t] := by
  rw [surface_eq]
  split <;> rfl

/-- What follows a part of a part follows a part of the whole. -/
lemma Joins.mono (h : c.Joins cs x) (hs : ∀ y ∈ c.surface, y ∈ e.surface) : e.Joins cs x :=
  ⟨fun hk i hb hi =>
    let ⟨b, hb, h⟩ := h.sign hk i hb hi
    ⟨b, hs b hb, h⟩,
  fun hk i hb hi =>
    let ⟨b, hb, h⟩ := h.call hk i hb hi
    ⟨b, hs b hb, h⟩⟩

/-- No sign and no parenthesis follows an operator as they follow an operand. -/
lemma Joins.of_operator (h : x.kind = .operator) : e.Joins cs x := by
  refine ⟨fun hk => absurd h hk, fun hk => ?_⟩
  rw [h] at hk
  cases hk

end Node

/-! ### What follows a token -/

section

variable {cs : List Char} {u v : Token} {ts : List Token} {x e : Node} {i : Nat}

lemma SignAt.solid (h : SignAt cs i) : Solid cs i := by
  rcases h with h | h <;> exact solid_of_getElem? h (by decide)

/-- Between tokens there is neither a sign nor a parenthesis. -/
lemma Token.Beside.joins (h : u.Beside cs v) (hv : Solid cs v.start)
    (hno : ∀ y ∈ cs[v.start]?, y ∉ ['+', '-', '(']) (hx : x.stop = u.stop) : e.Joins cs x := by
  refine ⟨fun _ i hb hi => ?_, fun _ i hb hi => ?_⟩
  · rw [hx] at hb
    obtain rfl := hb.unique h.between hi.solid hv
    rcases hi with hi | hi <;> exact absurd (by decide) (hno _ hi)
  · rw [hx] at hb
    obtain rfl := hb.unique h.between (solid_of_getElem? hi (by decide)) hv
    exact absurd (by decide) (hno _ hi)

/-- A token that is no sign begins with none, and so with parentheses. -/
lemma Token.Sits.quiet (h : v.Sits cs) (hv : v.kind.visible = true)
    (hk : v.kind ∉ [.plus, .minus, .leftParen]) :
    ∀ y ∈ cs[v.start]?, y ∉ ['+', '-', '('] := by
  obtain ⟨x, hx, -, hsign, hparen⟩ := h.first hv
  simp only [List.mem_cons, List.not_mem_nil, or_false, not_or] at hk ⊢
  intro y hy
  rw [hx] at hy
  cases hy
  exact ⟨fun h => by simp [hk.1, hk.2.1, h] at hsign, fun h => by simp [hk.1, hk.2.1, h] at hsign,
    fun h => hk.2.2 (hparen.mp h)⟩

lemma Threaded.joins (h : Threaded cs (u :: v :: ts)) (hu : u.kind.visible = true)
    (hv : v.kind.visible = true) (hk : v.kind ∉ [.plus, .minus, .leftParen])
    (hx : x.stop = u.stop) : e.Joins cs x :=
  (h.beside hu hv).joins ((h.sits (by simp)).solid hv) ((h.sits (by simp)).quiet hv hk) hx

lemma Threaded.kind_of_sign (h : Threaded cs (u :: v :: ts)) (hv : v.kind.visible = true)
    (hi : SignAt cs v.start) : v.kind = .plus ∨ v.kind = .minus := by
  obtain ⟨x, hx, -, hsign, -⟩ := (h.sits (List.mem_cons_of_mem _ List.mem_cons_self)).first hv
  rw [SignAt, hx] at hi
  exact hsign.mp (hi.imp Option.some.inj Option.some.inj)

end

/-! ### Expressions -/

/-- The expression is written as it should be, except for what follows its end; in a row
of a matrix white space counts. -/
structure Node.Fine (cs : List Char) (inMatrix : Bool) (n : Node) : Prop where
  spaces : ∀ x ∈ n.walk, x.Spaces cs
  joins : ∀ x ∈ n.surface, x.stop < n.stop → n.Joins cs x
  tight : inMatrix = true → ∀ x ∈ n.surface, x.Tight cs

namespace Node

variable {cs : List Char} {m : Bool} {n c lhs rhs operand target : Node}
  {u op opener closer : Token} {ts : List Token} {ns xs ys : List Node}

/-- A sign ahead that goes to an operator of an element does not begin another one. -/
lemma tight_binary (h : Threaded cs (u :: op :: ts)) (hu : u.kind.visible = true)
    (hop : op.kind.visible = true) (hsign : signAhead (op :: ts) = false)
    (hr : (headKind ts).visible = true) (hk : headKind ts ≠ .rightBracket)
    (hs : ∀ v ∈ ts.head?, rhs.start = v.start) : (binaryNode lhs op rhs).Tight cs := by
  refine ⟨?_, by rintro ⟨⟩, by rintro ⟨⟩⟩
  rintro - _ _ ⟨⟩ ⟨⟩ hi ⟨hspace, htouch⟩
  cases ts with
  | nil => cases hr
  | cons v vs =>
    rw [hs v rfl] at htouch
    have hspaced := (h.beside hu hop).space.mpr hspace
    have hmore := h.suffix (List.suffix_cons u _)
    have hnext := (hmore.beside hop hr).touches.mpr htouch
    have heof : v.kind ≠ .eof := by
      rintro he
      rw [headKind_cons, he] at hr
      cases hr
    rw [headKind_cons] at hk
    rcases h.kind_of_sign hop hi with hk' | hk' <;>
      simp [signAhead, headSpaced, hk', hspaced, hnext, heof, hk] at hsign

/-- A child of the node `n` is written as it should be within `n`. -/
structure Part (cs : List Char) (inMatrix : Bool) (n c : Node) : Prop where
  spaces : ∀ x ∈ c.walk, x.Spaces cs
  joins : ∀ x ∈ c.surface, x.stop < n.stop → n.Joins cs x
  tight : inMatrix = true → ∀ x ∈ c.surface, x.Tight cs

lemma Fine.of_parts (hopen : n.kind.shuts = false) (hs : n.Spaces cs)
    (hc : ∀ c ∈ n.children, n.Part cs m c) (ht : m = true → n.Tight cs) : n.Fine cs m where
  spaces := (forall_mem_walk _).mpr ⟨hs, fun c h => (hc c h).spaces⟩
  joins := (forall_mem_surface hopen).mpr
    ⟨fun hlt => absurd hlt (Nat.lt_irrefl _), fun c h => (hc c h).joins⟩
  tight := fun hm => (forall_mem_surface hopen).mpr ⟨ht hm, fun c h => (hc c h).tight hm⟩

/-- An expression is a part of what it stands in when its end is. -/
lemma Fine.part (h : c.Fine cs m) (hfits : c.Fits cs) (hopen : n.kind.shuts = false)
    (hc : c ∈ n.children) (hend : c.stop < n.stop → ∀ x, x.stop = c.stop → n.Joins cs x) :
    n.Part cs m c := by
  refine ⟨h.spaces, fun x hx hlt => ?_, h.tight⟩
  rcases Nat.lt_or_eq_of_le (hfits.stop_le (mem_walk_of_mem_surface hx)) with hin | heq
  · exact (h.joins x hx hin).mono fun y hy => mem_surface_child hopen hc hy
  · exact hend (heq ▸ hlt) x heq

/-- A child that shows nothing of what stands in it. -/
lemma Part.single (hs : c.surface = [c]) (hspaces : ∀ x ∈ c.walk, x.Spaces cs)
    (hk : c.kind ∉ [.binary, .call, .memberAccess])
    (hend : c.stop < n.stop → n.Joins cs c) : n.Part cs m c := by
  refine ⟨hspaces, ?_, fun _ => ?_⟩
  · rw [hs, List.forall_mem_singleton]
    exact hend
  · rw [hs, List.forall_mem_singleton]
    exact .of_kind hk

lemma part_operator (n : Node) (t : Token) : n.Part cs m (leaf .operator t) :=
  .single surface_leaf (spaces_leaf (by decide)) (show Kind.operator ∉ _ by decide)
    fun _ => .of_operator rfl

/-- A binary operator behind its left operand, which ends with the token `u`. -/
lemma Fine.binary {level : Nat} {assoc : Assoc} (hl : lhs.Fine cs m) (hr : rhs.Fine cs m)
    (hlfits : lhs.Fits cs) (hrfits : rhs.Fits cs) (h : Threaded cs (u :: op :: ts))
    (hu : u.kind.visible = true) (hstop : lhs.stop = u.stop)
    (hop : op.kind.binary? = some (level, assoc))
    (ht : m = true → (binaryNode lhs op rhs).Tight cs) : (binaryNode lhs op rhs).Fine cs m := by
  have hvisible := TokenKind.visible_of_binary hop
  have hsits := h.sits (List.mem_cons_of_mem _ List.mem_cons_self)
  -- behind the left operand stands the operator
  have hend : ∀ x, x.stop = lhs.stop → (binaryNode lhs op rhs).Joins cs x := by
    refine fun x heq => ⟨fun _ i hb hi => ?_, fun _ i hb hi => ?_⟩
    · rw [heq, hstop] at hb
      obtain rfl := h.start_eq hu hvisible.1 hb hi.solid
      exact ⟨_, mem_surface_self _, rfl, _, rfl, rfl⟩
    · rw [heq, hstop] at hb
      obtain rfl := h.start_eq hu hvisible.1 hb (solid_of_getElem? hi (by decide))
      obtain ⟨y, hy, -, -, hparen⟩ := hsits.first hvisible.1
      rw [hy] at hi
      exact absurd (hparen.mp (Option.some.inj hi)) hvisible.2
  refine .of_parts rfl (.of_kind (show Kind.binary ∉ _ by decide)) ?_ ht
  refine List.forall_mem_cons.mpr ⟨hl.part hlfits rfl List.mem_cons_self fun _ => hend,
    List.forall_mem_cons.mpr ⟨part_operator _ op, List.forall_mem_singleton.mpr ?_⟩⟩
  exact hr.part hrfits rfl (List.mem_cons_of_mem _ (List.mem_cons_of_mem _ List.mem_cons_self))
    fun hlt => absurd hlt (Nat.lt_irrefl _)

/-- A prefix operator before its operand. -/
lemma Fine.prefixOp (h : operand.Fine cs m) (hfits : operand.Fits cs) :
    (prefixNode op operand).Fine cs m := by
  refine .of_parts rfl (.of_kind (show Kind.unary ∉ _ by decide)) ?_
    fun _ => .of_kind (show Kind.unary ∉ _ by decide)
  refine List.forall_mem_cons.mpr ⟨part_operator _ op, List.forall_mem_singleton.mpr ?_⟩
  exact h.part hfits rfl (List.mem_cons_of_mem _ List.mem_cons_self)
    fun hlt => absurd hlt (Nat.lt_irrefl _)

/-- A suffix operator behind its operand, which ends with the token `u`. -/
lemma Fine.suffixOp (h : operand.Fine cs m) (hfits : operand.Fits cs)
    (hs : Threaded cs (u :: op :: ts)) (hu : u.kind.visible = true) (hstop : operand.stop = u.stop)
    (hop : op.kind.isSuffix = true) : (suffixNode operand op).Fine cs m := by
  have hvisible := TokenKind.visible_of_suffix hop
  refine .of_parts rfl (.of_kind (show Kind.suffix ∉ _ by decide)) ?_
    fun _ => .of_kind (show Kind.suffix ∉ _ by decide)
  refine List.forall_mem_cons.mpr ⟨h.part hfits rfl List.mem_cons_self fun _ x heq => ?_,
    List.forall_mem_singleton.mpr (part_operator _ op)⟩
  exact hs.joins hu hvisible.1 hvisible.2 (heq.trans hstop)

/-- An operand that shows nothing of what stands in it. -/
lemma Fine.of_shuts (hs : n.kind.shuts = true) (hk : n.kind ∉ [.binary, .call, .memberAccess])
    (h : ∀ x ∈ n.walk, x.Spaces cs) : n.Fine cs m := by
  have hsurface := surface_of_shuts hs
  refine ⟨h, ?_, fun _ => ?_⟩
  · rw [hsurface, List.forall_mem_singleton]
    exact fun hlt => absurd hlt (Nat.lt_irrefl _)
  · rw [hsurface, List.forall_mem_singleton]
    exact .of_kind hk

/-- Names and numbers: between the leaves of the node stands neither a sign nor a
parenthesis. -/
lemma Fine.of_leaves (kind : Kind) (hk : kind = .number ∨ kind = .identifier)
    (hn : n.kind ∈ [.number, .percentage, .range, .memberAccess])
    (hc : ∀ c ∈ n.children, ∃ t : Token, c = leaf kind t ∧ (t.stop < n.stop → n.Joins cs c))
    (ht : m = true → n.Tight cs) : n.Fine cs m := by
  have hkind : n.kind.shuts = false
      ∧ n.kind ∉ [.matrixRow, .lastRow, .bracketed, .snippet, .call] := by
    simp only [List.mem_cons, List.not_mem_nil, or_false] at hn
    rcases hn with hn | hn | hn | hn <;> rw [hn] <;> exact ⟨rfl, by decide⟩
  refine .of_parts hkind.1 (.of_kind hkind.2) (fun c hmem => ?_) ht
  obtain ⟨t, rfl, hend⟩ := hc c hmem
  have hleaf : kind ∉ [.matrixRow, .lastRow, .bracketed, .snippet, .call]
      ∧ kind ∉ [.binary, .call, .memberAccess] := by
    rcases hk with rfl | rfl <;> decide
  exact .single surface_leaf (spaces_leaf hleaf.1) hleaf.2 hend

/-- What follows the end of an expression decides about its last parts. -/
lemma Fine.joins_all (h : n.Fine cs m) (hfits : n.Fits cs)
    (hend : ∀ x, x.stop = n.stop → n.Joins cs x) : ∀ x ∈ n.surface, n.Joins cs x := by
  intro x hx
  rcases Nat.lt_or_eq_of_le (hfits.stop_le (mem_walk_of_mem_surface hx)) with hlt | heq
  · exact h.joins x hx hlt
  · exact hend x heq

/-- An expression in a row has a sign only where white space allows it. -/
lemma Spaces.row {kind : Kind} {p : Place} {stop : Nat} (hk : kind = .matrixRow ∨ kind = .lastRow)
    (h : ∀ n ∈ ns, n.Fine cs true) (hn : ns.IsChain (Neighbours cs)) :
    ∀ x ∈ (spanning kind p stop ns).walk, x.Spaces cs := by
  refine (forall_mem_walk _).mpr ⟨⟨fun _ e he => (h e he).tight rfl, fun _ => hn, ?_⟩,
    fun c hc => (h c hc).spaces⟩
  have henclosed : (spanning kind p stop ns).enclosed = [] := by
    rcases hk with rfl | rfl <;> rfl
  simp [henclosed]

/-- Parentheses and snippets. -/
lemma Spaces.around {kind : Kind} {p : Place} {stop : Nat} {fields : FieldTable}
    (hk : kind = .bracketed ∨ kind = .snippet) (h : n.Fine cs m)
    (hj : ∀ x ∈ n.surface, n.Joins cs x) :
    ∀ x ∈ (spanning kind p stop [n] fields).walk, x.Spaces cs := by
  have henclosed : (spanning kind p stop [n] fields).enclosed = [n] := by
    rcases hk with rfl | rfl <;> rfl
  have hrow : kind ∉ [.matrixRow, .lastRow] := by
    rcases hk with rfl | rfl <;> decide
  refine (forall_mem_walk _).mpr ⟨.of_enclosed hrow ?_, List.forall_mem_singleton.mpr h.spaces⟩
  rw [henclosed, List.forall_mem_singleton]
  exact hj

/-- The node of an argument and the expression in it. -/
structure Argument (cs : List Char) (form : ArgumentForm) (n : Node) : Prop where
  spaces : ∀ x ∈ n.walk, x.Spaces cs
  value : form = .value → ∀ x ∈ n.surface, n.Joins cs x
  keyword : form = .keyword → ∀ e ∈ n.labelled .argumentValue, ∀ x ∈ e.surface, e.Joins cs x

/-- The arguments between two parentheses. -/
lemma part_arguments {kind : Kind} (hk : kind = .positionalArgs ∨ kind = .keywordArgs)
    (h : ∀ n ∈ ns, ∀ x ∈ n.walk, x.Spaces cs) (hstop : n.stop = closer.stop) :
    n.Part cs m (argumentsNode kind opener closer ns) := by
  have hkind : kind.shuts = true ∧ kind ∉ [.binary, .call, .memberAccess]
      ∧ kind ∉ [.matrixRow, .lastRow, .bracketed, .snippet, .call] := by
    rcases hk with rfl | rfl <;> exact ⟨rfl, by decide, by decide⟩
  refine .single (surface_of_shuts hkind.1) ((forall_mem_walk _).mpr ⟨.of_kind hkind.2.2, h⟩)
    hkind.2.1 fun hlt => ?_
  rw [hstop] at hlt
  exact absurd hlt (Nat.lt_irrefl _)

/-- A call of what ends with the token `u`. -/
lemma Fine.call (h : target.Fine cs m) (hfits : target.Fits cs)
    (hs : Threaded cs (u :: opener :: ts)) (hu : u.kind.visible = true)
    (hstop : target.stop = u.stop) (ho : opener.kind = .leftParen) (hm : m = true → opener.spaced = false)
    (hx : ∀ n ∈ xs, n.Argument cs .value) (hy : ∀ n ∈ ys, n.Argument cs .keyword) :
    (callNode target opener closer xs ys).Fine cs m := by
  have hvisible : opener.kind.visible = true := by rw [ho]; rfl
  have hsits := hs.sits (List.mem_cons_of_mem _ List.mem_cons_self)
  have hbeside := hs.beside hu hvisible
  have hparen := (hsits.mark ho rfl).1
  have henclosed : (callNode target opener closer xs ys).enclosed
      = xs ++ ys.flatMap (·.labelled .argumentValue) := by
    have hpos : (callNode target opener closer xs ys).labelled .posArgs
        = [argumentsNode .positionalArgs opener closer xs] := rfl
    have hkey : (callNode target opener closer xs ys).labelled .keywordArgs
        = [argumentsNode .keywordArgs opener closer ys] := rfl
    show List.flatMap _ _ ++ List.flatMap _ (List.flatMap _ _) = _
    rw [hpos, hkey, List.flatMap_singleton, List.flatMap_singleton]
    rfl
  have hspaces : (callNode target opener closer xs ys).Spaces cs := by
    refine .of_enclosed (show Kind.call ∉ _ by decide) ?_
    rw [henclosed, List.forall_mem_append]
    refine ⟨fun n hn => (hx n hn).value rfl, fun e he => ?_⟩
    obtain ⟨n, hn, he⟩ := List.mem_flatMap.mp he
    exact (hy n hn).keyword rfl e he
  -- behind the name stands the parenthesis
  have hend : ∀ x, x.stop = target.stop → (callNode target opener closer xs ys).Joins cs x := by
    refine fun x heq => ⟨fun _ i hb hi => ?_, fun _ i hb hi => ?_⟩
    · rw [heq, hstop] at hb
      obtain rfl := hs.start_eq hu hvisible hb hi.solid
      rw [SignAt, hparen] at hi
      exact absurd hi (by decide)
    · rw [heq, hstop] at hb
      obtain rfl := hs.start_eq hu hvisible hb (solid_of_getElem? hi (by decide))
      exact ⟨_, mem_surface_self _, rfl, _, _, rfl, rfl, heq.symm, rfl⟩
  refine .of_parts rfl hspaces ?_ fun hmatrix => ⟨by rintro ⟨⟩, ?_, by rintro ⟨⟩⟩
  · refine List.forall_mem_cons.mpr ⟨h.part hfits rfl List.mem_cons_self fun _ => hend,
      List.forall_mem_cons.mpr ⟨?_, List.forall_mem_singleton.mpr ?_⟩⟩
    · exact part_arguments (.inl rfl) (fun n hn => (hx n hn).spaces) rfl
    · exact part_arguments (.inr rfl) (fun n hn => (hy n hn).spaces) rfl
  · rintro - _ _ ⟨⟩ ⟨⟩
    have htouch := hbeside.touches.mp (hm hmatrix)
    rw [hstop, ← htouch]
    exact ⟨rfl, hparen⟩

end Node

end StpLang
