import StpLang.Proofs.Grammar.SoundStatement

/-!
What is derived is read.

A strict reader before the tokens of a phrase reads that phrase, whatever it
has read before, and makes the nodes that the derivation gives. With what has
been shown for the other direction, reader and relation say the same.

* `Yields` says what a function makes of the tokens ahead.
* `Yields.bind` and its kin follow a function token by token.
* `Derives.accepts` goes through the rules of the grammar.
-/

namespace StpLang

open Parse Grammar

/-- Before the tokens `ts` and `k`, and behind the tokens `ps`, the function
passes over `ts` and makes `y`. -/
def Yields {α : Type} (f : Parse α) (ps ts k : List Token) (y : α) : Prop :=
  ∀ s : Parser, s.rest = ts ++ k → (ps ≠ [] → s.previous.stop = lastStop ps) →
    ∃ t, f s = .ok y t ∧ Passes s t ts

section

variable {α β : Type} {f : Parse α} {g : α → Parse β} {ps ts us k : List Token} {x : Token}
  {y : α} {z : β}

lemma lastStop_append (hne : us ≠ []) : lastStop (ts ++ us) = lastStop us := by
  rw [lastStop, lastStop, List.getLast?_append]
  cases h : us.getLast? with
  | none => exact absurd (List.getLast?_eq_none_iff.mp h) hne
  | some x => rfl

namespace Yields

/-- What has been read before matters only to nodes. -/
lemma of_nil (h : Yields f [] ts k y) : Yields f ps ts k y := fun s hs _ =>
  h s hs fun hne => absurd rfl hne

/-! ### Sequences -/

lemma bind (hf : Yields f ps ts (us ++ k) y) (hg : Yields (g y) (ps ++ ts) us k z) :
    Yields (f >>= g) ps (ts ++ us) k z := by
  intro s hs hprev
  obtain ⟨t, ht, hp⟩ := hf s (by rw [hs, List.append_assoc]) hprev
  have hrest : t.rest = us ++ k := by
    have := hp.rest
    rw [hs, List.append_assoc] at this
    exact (List.append_cancel_left this).symm
  obtain ⟨u, hu, hp'⟩ := hg t hrest fun _ => by
    cases ts with
    | nil =>
      have hpass : Moves s t [] [] [] := hp
      have hb : t.before = s.before := hpass.before
      have hr : t.rest = s.rest := hpass.rest.symm
      have he : t.eof = s.eof := hpass.eof
      rw [List.append_nil] at *
      rw [← hprev ‹_›]
      simp only [Parser.previous, Parser.current, hb, hr, he]
    | cons x xs => rw [hp.previous_stop (by simp), lastStop_append (by simp)]
  exact ⟨u, bind_eq_ok.mpr ⟨y, t, ht, hu⟩, hp.trans hp'⟩

/-- A step that passes over one token. -/
lemma bind_one (hf : Yields f ps [x] (us ++ k) y) (hg : Yields (g y) (ps ++ [x]) us k z) :
    Yields (f >>= g) ps (x :: us) k z := hf.bind hg

/-- A step that passes over all of the tokens. -/
lemma bind_all (hf : Yields f ps ts k y) (hg : Yields (g y) (ps ++ ts) [] k z) :
    Yields (f >>= g) ps ts k z := by
  have hall : Yields (f >>= g) ps (ts ++ []) k z := bind hf hg
  rwa [List.append_nil] at hall

/-- A step that passes over none of the tokens. -/
lemma bind_none (hf : Yields f ps [] (us ++ k) y) (hg : Yields (g y) ps us k z) :
    Yields (f >>= g) ps us k z := by
  have hg' : Yields (g y) (ps ++ []) us k z := by rwa [List.append_nil]
  show Yields (f >>= g) ps ([] ++ us) k z
  exact bind hf hg'

lemma discard_bind {g : PUnit → Parse β} (h : Yields (f >>= fun _ => g ⟨⟩) ps ts k z) :
    Yields (discard f >>= g) ps ts k z := by
  rwa [Parse.discard_bind]

/-! ### Single actions -/

lemma pure (y : α) : Yields (pure y) ps [] k y := fun s _ _ => ⟨s, rfl, .refl s⟩

lemma ite_pos {c : Prop} [Decidable c] {f' : Parse α} (hc : c) (h : Yields f ps ts k y) :
    Yields (if c then f else f') ps ts k y := by rwa [if_pos hc]

lemma ite_neg {c : Prop} [Decidable c] {f' : Parse α} (hc : ¬c) (h : Yields f ps ts k y) :
    Yields (if c then f' else f) ps ts k y := by rwa [if_neg hc]

lemma get_bind {g : Parser → Parse β} (h : ∀ s, s.rest = ts ++ k → Yields (g s) ps ts k z) :
    Yields (get >>= g) ps ts k z := fun s hs hp => h s hs s hs hp

/-- Looking at the token ahead. -/
lemma current_bind {g : Token → Parse β}
    (h : ∀ t : Token, t.kind = headKind (ts ++ k) → t.spaced = headSpaced (ts ++ k) →
      Yields (g t) ps ts k z) : Yields (current >>= g) ps ts k z := by
  intro s hs hp
  rw [run_current]
  exact h _ (by rw [Parser.current_kind, hs]) (by rw [Parser.current_spaced, hs]) s hs hp

/-- Looking at the token ahead, which is to be read. -/
lemma current_cons {g : Token → Parse β} (h : Yields (g x) ps (x :: ts) k z) :
    Yields (current >>= g) ps (x :: ts) k z := by
  intro s hs hp
  rw [run_current, Parser.current_of_rest hs]
  exact h s hs hp

lemma tokensLeft_bind {g : Nat → Parse β} (h : Yields (g (ts ++ k).length) ps ts k z) :
    Yields (tokensLeft >>= g) ps ts k z := by
  intro s hs hp
  rw [run_tokensLeft, hs]
  exact h s hs hp

lemma advance (hx : x.kind ≠ .string) : Yields advance ps [x] k x := by
  intro s hs _
  refine ⟨s.step, ?_, .step hs hx⟩
  show EStateM.Result.ok s.current s.step = _
  rw [Parser.current_of_rest hs]

lemma expect {kinds : List TokenKind} (hk : kinds.contains x.kind = true)
    (hs : x.kind ≠ .string) : Yields (expect kinds) ps [x] k x := by
  unfold Parse.expect
  exact current_cons (ite_pos hk (advance hs))

lemma leafOf {kind : Kind} (hs : x.kind ≠ .string) :
    Yields (leafOf x.kind kind) ps [x] k (.leaf kind x) := by
  unfold Parse.leafOf
  exact bind_one (expect (by simp) hs) (pure _)

lemma close {opener : Token} (h : opener.kind.closer? = some x.kind) (hs : x.kind ≠ .string) :
    Yields (close opener) ps [x] k x := by
  unfold Parse.close
  exact current_cons (ite_pos (by rw [h]; simp) (advance hs))

lemma accept_none {kind : TokenKind} (hk : headKind k ≠ kind) :
    Yields (accept [kind]) ps [] k none := by
  unfold Parse.accept
  refine current_bind fun t ht _ => ite_neg ?_ (pure _)
  rw [ht]
  simpa using hk

lemma accept_some (hs : x.kind ≠ .string) : Yields (accept [x.kind]) ps [x] k (some x) := by
  unfold Parse.accept
  refine current_cons (ite_pos (by simp) ?_)
  rw [map_eq_bind]
  exact bind_one (advance hs) (pure _)

lemma node {kind : Kind} {place : Place} {children : List Node} {fields : FieldTable}
    {value : Option String} (hne : ps ≠ []) :
    Yields (node kind place children fields value) ps [] k
      (.spanning kind place (lastStop ps) children fields value) := by
  intro s _ hp
  rw [run_node, hp hne]
  exact ⟨s, rfl, .refl s⟩

/-- A node ends where the last token ends. -/
lemma node_of_append {kind : Kind} {place : Place} {children : List Node} {fields : FieldTable}
    {value : Option String} (hne : ts ≠ []) :
    Yields (Parse.node kind place children fields value) (ps ++ ts) [] k
      (.spanning kind place (lastStop ts) children fields value) := by
  have hstop : lastStop (ps ++ ts) = lastStop ts := lastStop_append hne
  rw [← hstop]
  exact node (by simp [hne])

lemma bounded_bind {limit : Int} {a : Nat} {n : Node} {g : Unit → Parse β} (hn : n.height ≤ a)
    (h : Yields (g ()) ps ts k z) : Yields (bounded limit a n x >>= g) ps ts k z := by
  intro s hs hp
  obtain ⟨t, ht, hpass⟩ := h s hs hp
  exact ⟨t, bounded_bind_eq_ok.mpr ⟨hn, ht⟩, hpass⟩

end Yields

end

/-! ### What each phrase is read by -/

section

variable (limit : Int)

/-- The function that reads a value. -/
def readValue (a : Nat) : Parse Node := expression (level limit true a) 1 false

/-- The function for a phrase makes the nodes of the phrase. Where it counts
its rounds, any count will do that is not less than the number of tokens. -/
def Accepts (a : Nat) : Phrase → (ts k : List Token) → List Node → Prop
  | .expression least m, ts, k, ns =>
    ∃ n, ns = [n] ∧ Yields (expression (level limit true a) least m) [] ts k n
  | .operators least m lhs, ts, k, ns =>
    ∃ n, ns = [n] ∧ ∀ bound, (ts ++ k).length ≤ bound →
      Yields (climb (level limit true a) (derive limit true (a - 1)) least m bound lhs) [] ts k n
  | .unary m, ts, k, ns => ∃ n, ns = [n] ∧ Yields (unary (level limit true a) m) [] ts k n
  | .suffixes operand, ts, k, ns =>
    ∃ n, ns = [n] ∧ ∀ bound, (ts ++ k).length ≤ bound →
      Yields (suffixes (level limit true a) bound operand) [] ts k n
  | .primary m, ts, k, ns => ∃ n, ns = [n] ∧ Yields (primary (level limit true a) m) [] ts k n
  | .name m, ts, k, ns => ∃ n, ns = [n] ∧ Yields (memberAccess m) [] ts k n
  | .members m, ts, k, ns =>
    ∀ bound, (ts ++ k).length ≤ bound → Yields (memberParts m bound) [] ts k ns
  | .argument .value, ts, k, ns => ∃ n, ns = [n] ∧ Yields (readValue limit a) [] ts k n
      ∧ bindingAhead (ts ++ k) = false
  | .argument .parameter, ts, k, ns =>
    ∃ n, ns = [n] ∧ Yields (leafOf .identifier .identifier) [] ts k n
      ∧ bindingAhead (ts ++ k) = false
  | .argument .keyword, ts, k, ns =>
    ∃ n, ns = [n] ∧ Yields (keywordArgument (readValue limit a)) [] ts k n
      ∧ bindingAhead (ts ++ k) = true
  | .arguments .keyword, ts, k, ns =>
    headKind k = .rightParen → ∀ definition opener named bound, (ts ++ k).length ≤ bound →
      Yields (argumentList (readValue limit a) definition opener bound named) [] ts k ([], ns)
  | .arguments form, ts, k, ns =>
    ∀ vs k' ms, k = vs ++ k' → headKind k' = .rightParen →
      Derives a (.arguments .keyword) vs k' ms →
      (∀ definition opener named bound, (vs ++ k').length ≤ bound →
        Yields (argumentList (readValue limit a) definition opener bound named) [] vs k' ([], ms)) →
      ∀ opener bound, (ts ++ k).length ≤ bound →
        Yields (argumentList (readValue limit a) (form == .parameter) opener bound false) []
          (ts ++ vs) k' (ns, ms)
  | .elements, ts, k, ns =>
    ∀ bound, (ts ++ k).length ≤ bound → Yields (rowElements (derive limit true a) bound) [] ts k ns
  | .rows, ts, k, ns =>
    ∀ c k' opener, k = c :: k' → c.kind = .rightBracket → opener.kind = .leftBracket →
      ∀ bound, (ts ++ k).length ≤ bound →
        Yields (rows (derive limit true a) opener bound) [] (ts ++ [c]) k' ns
  | .segments segs, _, _, ns =>
    ∀ s : Parser, ∃ t, segs.mapM (segmentNode (level limit true a)) s = .ok ns t
      ∧ Moves s t [] [] (segmentComments segs)
  | .statement loops, ts, k, ns =>
    ∃ n, ns = [n] ∧ Yields (statement (level limit true a) loops) [] ts k n
  | .statements loops inBlock, ts, k, ns =>
    ∀ bound, (ts ++ k).length ≤ bound →
      Yields (statements true (statement (level limit true a) loops) (blockCloser inBlock) bound)
        [] ts k ns
  | .block loops, ts, k, ns => ∃ n, ns = [n] ∧ Yields (block (level limit true a) loops) [] ts k n
  | .clauses loops seenElse, ts, k, ns =>
    ∀ bound, (ts ++ k).length ≤ bound →
      Yields (clauses (level limit true a) loops bound seenElse) [] ts k ns

variable {limit : Int} {a b : Nat} {ts us vs k : List Token} {n : Node} {ns ms : List Node}
  {least loops : Nat} {m : Bool}

/-! ### Binary operators -/

lemma accepts_expression {lhs : Node} (hl : Accepts limit a (.unary m) ts (us ++ k) [lhs])
    (ho : Accepts limit (a + 1) (.operators least m lhs) us k [n]) :
    Accepts limit (a + 1) (.expression least m) (ts ++ us) k [n] := by
  obtain ⟨_, hn, hl⟩ := hl
  cases hn
  obtain ⟨_, hn, ho⟩ := ho
  cases hn
  refine ⟨n, rfl, .current_bind fun t _ _ => ?_⟩
  show Yields (derive limit true a (.unary m) >>= _) _ _ _ _
  rw [derive_eq]
  exact .bind hl (.tokensLeft_bind (.of_nil (ho _ (Nat.le_refl _))))

lemma accepts_operatorsEnd {lhs : Node} (h : operatorAhead least m k = false) :
    Accepts limit (a + 1) (.operators least m lhs) [] k [lhs] := by
  refine ⟨lhs, rfl, fun bound _ => ?_⟩
  cases bound with
  | zero => exact .pure _
  | succ bound =>
    refine .get_bind fun s hs => ?_
    simp only [startsElement_eq, Parser.current_kind, hs, List.nil_append]
    unfold operatorAhead at h
    cases hop : (headKind k).binary? with
    | none => exact .pure _
    | some op =>
      simp only [hop, Bool.not_eq_false'] at h
      exact .ite_pos h (.pure _)

lemma accepts_operatorsMore {op : Token} {lhs rhs : Node} {level : Nat} {assoc : Assoc}
    (hop : op.kind.binary? = some (level, assoc))
    (h : operatorAhead least m (op :: (ts ++ us ++ k)) = true)
    (hr : Accepts limit a (.expression (rightLevel level assoc) m) ts (us ++ k) [rhs])
    (hh : (binaryNode lhs op rhs).height ≤ a)
    (ho : Accepts limit (a + 1) (.operators least m (binaryNode lhs op rhs)) us k [n]) :
    Accepts limit (a + 1) (.operators least m lhs) (op :: (ts ++ us)) k [n] := by
  obtain ⟨_, hn, hr⟩ := hr
  cases hn
  obtain ⟨_, hn, ho⟩ := ho
  cases hn
  refine ⟨n, rfl, fun bound hb => ?_⟩
  cases bound with
  | zero => simp at hb
  | succ bound =>
    have hstr : op.kind ≠ .string := by
      intro he
      rw [he] at hop
      cases hop
    refine .get_bind fun s hs => ?_
    have hrest : s.rest = op :: (ts ++ us ++ k) := hs
    have hstart := startsElement_eq s
    rw [Parser.current_of_rest hrest, hrest] at hstart
    simp only [Parser.current_of_rest hrest, hstart, hop]
    unfold operatorAhead at h
    rw [show headKind (op :: (ts ++ us ++ k)) = op.kind from rfl, hop, Bool.not_eq_true'] at h
    refine .ite_neg (by rw [h]; exact Bool.false_ne_true)
      (.discard_bind (.bind_one (.advance hstr) ?_))
    rw [Nat.add_sub_cancel, derive_eq]
    refine .bind (.of_nil hr) (.bounded_bind hh (.of_nil (ho bound ?_)))
    simp only [List.cons_append, List.length_cons, List.length_append] at hb ⊢
    omega

/-! ### Prefix and suffix operators -/

lemma accepts_unaryPrefix {op : Token} (hop : op.kind.isUnary = true)
    (h : Accepts limit a (.unary m) ts k [n]) :
    Accepts limit (a + 1) (.unary m) (op :: ts) k [prefixNode op n] := by
  obtain ⟨_, hn, h⟩ := h
  cases hn
  have hstr : op.kind ≠ .string := by
    intro he
    rw [he] at hop
    cases hop
  refine ⟨_, rfl, .current_cons (.ite_pos hop (.discard_bind (.bind_one (.advance hstr) ?_)))⟩
  show Yields (derive limit true a (.unary m) >>= _) _ _ _ _
  rw [derive_eq]
  exact .bind_all (.of_nil h) (.pure _)

lemma accepts_unaryPlain {operand : Node} (hd : Derives a (.primary m) ts (us ++ k) [operand])
    (hp : Accepts limit a (.primary m) ts (us ++ k) [operand])
    (hs : Accepts limit a (.suffixes operand) us k [n]) :
    Accepts limit a (.unary m) (ts ++ us) k [n] := by
  obtain ⟨_, hn, hp⟩ := hp
  cases hn
  obtain ⟨_, hn, hs⟩ := hs
  cases hn
  obtain ⟨t, ts, rfl, ht⟩ := hd.first rfl
  have hop : ¬t.kind.isUnary = true := by
    intro hop
    revert ht hop
    cases t.kind <;> simp [beginsOperand, TokenKind.isUnary]
  refine ⟨_, rfl, .current_cons (.ite_neg hop ?_)⟩
  exact .bind hp (.tokensLeft_bind (.of_nil (hs _ (Nat.le_refl _))))

lemma accepts_suffixesEnd {operand : Node} (h : suffixAhead k = false) :
    Accepts limit a (.suffixes operand) [] k [operand] := by
  refine ⟨_, rfl, fun bound _ => ?_⟩
  cases bound with
  | zero => exact .pure _
  | succ bound =>
    refine .current_bind fun t hk hs => ?_
    rw [hk, hs, List.nil_append]
    exact .ite_neg (by simpa [suffixAhead] using h) (.pure _)

lemma accepts_suffixesMore {op : Token} {operand : Node} (hop : suffixAhead [op] = true)
    (hh : (suffixNode operand op).height ≤ a)
    (h : Accepts limit a (.suffixes (suffixNode operand op)) ts k [n]) :
    Accepts limit a (.suffixes operand) (op :: ts) k [n] := by
  obtain ⟨_, hn, h⟩ := h
  cases hn
  have hstr : op.kind ≠ .string := by
    intro he
    simp [suffixAhead, headKind, he, TokenKind.isSuffix] at hop
  have hallowance : (level limit true a).allowance = a := (phraseLevel limit a).allowance
  refine ⟨_, rfl, fun bound hb => ?_⟩
  cases bound with
  | zero => simp at hb
  | succ bound =>
    refine .current_cons (.ite_pos hop (.discard_bind (.bind_one (.advance hstr) ?_)))
    refine .bind_none (.node (by simp)) (.bounded_bind (by rwa [hallowance]) (.of_nil (h bound ?_)))
    simp only [List.cons_append, List.length_cons] at hb
    omega

/-! ### Names and numbers -/

lemma accepts_membersEnd (h : dotAhead m k = false) : Accepts limit a (.members m) [] k [] := by
  intro bound _
  cases bound with
  | zero => exact .pure _
  | succ bound =>
    refine .current_bind fun t hk hs => ?_
    rw [hk, hs, List.nil_append]
    exact .ite_neg (by simpa [dotAhead] using h) (.pure _)

lemma accepts_membersMore {d t : Token} (hd : dotAhead m [d] = true) (ht : t.kind = .identifier)
    (h : Accepts limit a (.members m) ts k ns) :
    Accepts limit a (.members m) (d :: t :: ts) k (.leaf .identifier t :: ns) := by
  intro bound hb
  have hdk : d.kind = .dot := by
    simp only [dotAhead, headKind, Bool.and_eq_true, beq_iff_eq] at hd
    exact hd.1
  cases bound with
  | zero => simp at hb
  | succ bound =>
    refine .current_cons (.ite_pos hd (.discard_bind (.bind_one (.advance (by simp [hdk])) ?_)))
    rw [← ht]
    refine .bind_one (.leafOf (by simp [ht])) (.bind_all (.of_nil (h bound ?_)) (.pure _))
    simp only [List.cons_append, List.length_cons] at hb
    omega

lemma accepts_name {t : Token} (ht : t.kind = .identifier)
    (h : Accepts limit a (.members m) ts k ns) :
    Accepts limit a (.name m) (t :: ts) k [memberNode t (lastStop (t :: ts)) ns] := by
  refine ⟨_, rfl, ?_⟩
  unfold memberAccess
  rw [← ht]
  refine .bind_one (.leafOf (by simp [ht])) (.tokensLeft_bind ?_)
  exact .bind_all (.of_nil (h _ (Nat.le_refl _))) (.node (by simp))

lemma yields_rangeBound {ps : List Token} {d x : Token} (hd : d.kind = .ellipsis)
    (hx : x.kind = .number) : Yields rangeBound ps [d, x] k (.leaf .number x) := by
  unfold rangeBound
  refine .discard_bind (.bind_one (.expect (by simp [hd]) (by simp [hd])) ?_)
  refine .current_cons (.ite_pos (by simp [hx]) ?_)
  exact .bind_one (.advance (by simp [hx])) (.pure _)

/-- An operand that starts with a token of a known kind. -/
lemma yields_primary_range {x : Token} (hx : x.kind = .number)
    (hk : headKind (ts ++ k) = .ellipsis) (h : Yields range [] (x :: ts) k n) :
    Yields (primary (level limit true a) m) [] (x :: ts) k n := by
  refine .get_bind fun s hs => ?_
  rw [Parser.peek_kind, List.drop_one, hs, Parser.current_of_rest hs, hx]
  exact .ite_pos (by simp [hk]) h

lemma accepts_rangeOfTwo {x d y : Token} (hx : x.kind = .number) (hd : d.kind = .ellipsis)
    (hy : y.kind = .number) (hk : headKind k ≠ .ellipsis) :
    Accepts limit a (.primary m) [x, d, y] k
      [.spanning .range x.place y.stop [.leaf .number x, .leaf .number y]
        [(.start, [0]), (.stop, [1])]] := by
  refine ⟨_, rfl, yields_primary_range hx hd ?_⟩
  unfold range
  rw [← hx]
  refine .bind_one (.leafOf (by simp [hx])) (.bind_all (yields_rangeBound hd hy) ?_)
  refine .current_bind fun t ht _ => .ite_pos ?_ (.node (by simp))
  rw [ht]
  simpa using hk

lemma accepts_rangeOfThree {x d y e z : Token} (hx : x.kind = .number) (hd : d.kind = .ellipsis)
    (hy : y.kind = .number) (he : e.kind = .ellipsis) (hz : z.kind = .number)
    (hk : headKind k ≠ .ellipsis) :
    Accepts limit a (.primary m) [x, d, y, e, z] k
      [.spanning .range x.place z.stop [.leaf .number x, .leaf .number y, .leaf .number z]
        [(.start, [0]), (.step, [1]), (.stop, [2])]] := by
  refine ⟨_, rfl, yields_primary_range hx hd ?_⟩
  unfold range
  rw [← hx]
  refine .bind_one (.leafOf (by simp [hx])) ?_
  show Yields _ _ ([d, y] ++ [e, z]) _ _
  refine .bind (yields_rangeBound hd hy) ?_
  refine .current_cons (.ite_neg (by simp [he]) (.bind_all (yields_rangeBound he hz) ?_))
  refine .current_bind fun t ht _ => .ite_neg ?_ (.node (by simp))
  rw [ht]
  simpa using hk

/-- A number that starts no range. -/
lemma yields_primary_number {x : Token} (hx : x.kind = .number)
    (hk : headKind (ts ++ k) ≠ .ellipsis) (h : Yields Grammar.number [] (x :: ts) k n) :
    Yields (primary (level limit true a) m) [] (x :: ts) k n := by
  refine .get_bind fun s hs => ?_
  rw [Parser.peek_kind, List.drop_one, hs, Parser.current_of_rest hs, hx]
  exact .ite_neg (by simpa using hk) h

lemma accepts_number {t : Token} (ht : t.kind = .number) (hk : headKind k ≠ .ellipsis)
    (hp : percentAhead k = false) : Accepts limit a (.primary m) [t] k [.leaf .number t] := by
  refine ⟨_, rfl, yields_primary_number ht hk ?_⟩
  refine .bind_one (.advance (by simp [ht])) (.current_bind fun x hx hs => ?_)
  rw [hx, hs, List.nil_append]
  exact .ite_neg (by simpa [percentAhead] using hp) (.pure _)

lemma accepts_percentage {t sign : Token} (ht : t.kind = .number)
    (hs : percentAhead [sign] = true) :
    Accepts limit a (.primary m) [t, sign] k
      [.spanning .percentage t.place sign.stop [] [] (some (t.value ++ sign.value))] := by
  have hk : sign.kind = .percent := by
    simp only [percentAhead, headKind, Bool.and_eq_true, beq_iff_eq] at hs
    exact hs.1
  refine ⟨_, rfl, yields_primary_number ht (by simp [headKind, hk]) ?_⟩
  refine .bind_one (.advance (by simp [ht])) (.current_cons (.ite_pos hs ?_))
  exact .discard_bind (.bind_one (.advance (by simp [hk])) (.node (by simp)))

/-! ### Groups -/

lemma lastStop_concat (ts : List Token) (x : Token) : lastStop (ts ++ [x]) = x.stop := by
  simp [lastStop]

lemma accepts_matrix {o c : Token} (ho : o.kind = .leftBracket)
    (h : Accepts limit b .rows ts (c :: k) ns) (hc : c.kind = .rightBracket) :
    Accepts limit (b + 1) (.primary m) (o :: (ts ++ [c])) k
      [.spanning .matrix o.place c.stop ns] := by
  refine ⟨_, rfl, .get_bind fun s hs => ?_⟩
  rw [Parser.current_of_rest hs, ho, ← lastStop_concat ts c]
  refine .bind_one (.expect (by simp [ho]) (by simp [ho])) (.bind_all ?_ (.node_of_append (by simp)))
  exact .tokensLeft_bind (.of_nil (h c k o rfl hc ho _ (by simp)))

lemma accepts_bracketed {o c : Token} (ho : o.kind = .leftParen)
    (hd : Derives a (.expression 1 false) ts (c :: k) [n])
    (h : Accepts limit a (.expression 1 false) ts (c :: k) [n]) (hc : c.kind = .rightParen) :
    Accepts limit a (.primary m) (o :: (ts ++ [c])) k
      [.spanning .bracketed o.place c.stop [n]] := by
  obtain ⟨_, hn, h⟩ := h
  cases hn
  refine ⟨_, rfl, .get_bind fun s hs => ?_⟩
  rw [Parser.current_of_rest hs, ho]
  refine .bind_one (.expect (by simp [ho]) (by simp [ho])) (.current_bind fun t ht _ => ?_)
  refine .ite_neg ?_ ?_
  · -- no expression starts with the closing parenthesis
    obtain ⟨x, xs, rfl, hx⟩ := hd.first rfl
    rw [ht, show headKind (x :: xs ++ [c] ++ k) = x.kind from rfl]
    intro he
    rw [eq_of_beq he] at hx
    cases hx
  · refine .bind (.of_nil h) (.discard_bind (.bind_one (.close ?_ (by simp [hc])) ?_))
    · rw [ho, hc]
      rfl
    · exact .node_of_append (by simp)

/-- An operand that starts with a name. -/
lemma yields_primary_name (hd : Derives a (.name m) ts (us ++ k) [n])
    {z : Node} (h : Yields (nameOrCall (level limit true a) m) [] (ts ++ us) k z) :
    Yields (primary (level limit true a) m) [] (ts ++ us) k z := by
  obtain ⟨x, xs, rfl, hx⟩ := hd.first rfl
  refine .get_bind fun s hs => ?_
  rw [Parser.current_of_rest hs, eq_of_beq hx]
  exact h

lemma accepts_plainName (hd : Derives a (.name m) ts k [n])
    (h : Accepts limit a (.name m) ts k [n]) (hk : callAhead m k = false) :
    Accepts limit a (.primary m) ts k [n] := by
  obtain ⟨_, hn, h⟩ := h
  cases hn
  refine ⟨_, rfl, ?_⟩
  have hcall : Yields (nameOrCall (level limit true a) m) [] (ts ++ []) k n := by
    rw [List.append_nil]
    refine .bind_all h (.current_bind fun t ht hs => ?_)
    rw [ht, hs, List.nil_append]
    exact .ite_neg (by simpa [callAhead] using hk) (.pure _)
  have hprimary : Yields (primary (level limit true a) m) [] (ts ++ []) k n :=
    yields_primary_name hd hcall
  rwa [List.append_nil] at hprimary

/-! ### Arguments -/

lemma accepts_argumentKeyword {t e : Token} (ht : t.kind = .identifier) (he : e.kind = .assign)
    (hd : Derives a (.expression 1 false) ts k [n])
    (h : Accepts limit a (.expression 1 false) ts k [n]) :
    Accepts limit a (.argument .keyword) (t :: e :: ts) k [keywordNode t (lastStop ts) n] := by
  obtain ⟨_, hn, h⟩ := h
  cases hn
  refine ⟨_, rfl, ?_, by simp [bindingAhead, headKind, ht, he]⟩
  unfold keywordArgument
  rw [← ht]
  refine .bind_one (.leafOf (by simp [ht])) (.discard_bind ?_)
  refine .bind_one (.expect (by simp [he]) (by simp [he])) ?_
  exact .bind_all (.of_nil h) (.node_of_append hd.ne_nil)

/-- At the closing parenthesis the list of arguments ends. -/
lemma yields_argumentList_close {read : Parse Node} {definition named : Bool} {opener : Token}
    {bound : Nat} (hk : headKind k = .rightParen) (hb : k.length ≤ bound) :
    Yields (argumentList read definition opener bound named) [] [] k ([], []) := by
  cases bound with
  | zero =>
    rw [List.length_eq_zero_iff.mp (Nat.le_zero.mp hb)] at hk
    cases hk
  | succ bound =>
    refine .get_bind fun s hs => .ite_pos ?_ (.pure _)
    rw [Parser.current_kind, hs, List.nil_append, hk]
    rfl

/-- A comma with an argument behind it. -/
lemma yields_argumentSeparator_comma {ps : List Token} {opener c : Token} (hc : c.kind = .comma)
    (hk : headKind k ≠ .rightParen) : Yields (argumentSeparator opener) ps [c] k () := by
  refine .current_cons (.ite_pos (by simp [hc]) (.discard_bind (.bind_one (.advance ?_) ?_)))
  · simp [hc]
  · refine .current_bind fun t ht _ => .ite_neg ?_ (.pure _)
    rw [ht]
    simpa using hk

/-- The closing parenthesis is left. -/
lemma yields_argumentSeparator_close {ps : List Token} {opener : Token}
    (hk : headKind k = .rightParen) : Yields (argumentSeparator opener) ps [] k () := by
  refine .current_bind fun t ht _ => ?_
  rw [List.nil_append, hk] at ht
  exact .ite_neg (by simp [ht]) (.ite_neg (by simp [ht]) (.pure _))

/-- A named argument, then the others. -/
lemma yields_argumentList_keyword {read : Parse Node} {definition named : Bool} {opener : Token}
    {bound : Nat} {r : List Node × List Node} (hb : bindingAhead (ts ++ k) = true)
    (h : Yields (keywordArgument read >>= fun x => argumentSeparator opener >>= fun _ =>
      argumentList read definition opener bound true >>= fun r => pure (r.1, x :: r.2)) [] ts k r) :
    Yields (argumentList read definition opener (bound + 1) named) [] ts k r := by
  refine .get_bind fun s hs => ?_
  have hb' := hb
  simp only [bindingAhead, Bool.and_eq_true, beq_iff_eq] at hb'
  simp only [Parser.current_kind, Parser.peek_kind, List.drop_one, hs]
  refine .ite_neg (by simp [hb'.1]) (.ite_neg (by simp [hb'.1]) (.ite_pos ?_ h))
  exact hb

/-- A positional argument, then the others. -/
lemma yields_argumentList_positional {read : Parse Node} {definition : Bool} {opener : Token}
    {bound : Nat} {r : List Node × List Node} (hb : bindingAhead (ts ++ k) = false)
    (hk : beginsExpression (headKind (ts ++ k)) = true)
    (h : Yields ((if definition then leafOf .identifier .identifier else read) >>= fun x =>
      argumentSeparator opener >>= fun _ =>
      argumentList read definition opener bound false >>= fun r => pure (x :: r.1, r.2)) [] ts k r) :
    Yields (argumentList read definition opener (bound + 1) false) [] ts k r := by
  have hkind : headKind (ts ++ k) ≠ .rightParen ∧ headKind (ts ++ k) ≠ .eof
      ∧ headKind (ts ++ k) ≠ .rightBracket ∧ headKind (ts ++ k) ≠ .rightBrace := by
    refine ⟨?_, ?_, ?_, ?_⟩ <;> intro he <;> rw [he] at hk <;> cases hk
  refine .get_bind fun s hs => ?_
  simp only [Parser.current_kind, Parser.peek_kind, List.drop_one, hs]
  refine .ite_neg (by simp [hkind.1]) (.ite_neg (by simp [hkind]) (.ite_neg ?_ ?_))
  · rw [← Bool.not_eq_true] at hb
    exact hb
  · refine .ite_neg (by simp) ?_
    cases definition with
    | true => exact h
    | false => exact h

/-- The first argument of a list of positional ones. -/
lemma yields_positional {form : ArgumentForm} (hf : form ≠ .keyword)
    (hd : Derives a (.argument form) ts k [n]) (h : Accepts limit a (.argument form) ts k [n]) :
    Yields (if (form == .parameter) = true then leafOf .identifier .identifier
      else readValue limit a) [] ts k n
      ∧ bindingAhead (ts ++ k) = false ∧ beginsExpression (headKind (ts ++ k)) = true := by
  cases form with
  | keyword => exact absurd rfl hf
  | value =>
    obtain ⟨_, hn, h, hb⟩ := h
    cases hn
    obtain ⟨x, xs, rfl, hx⟩ := hd.first rfl
    exact ⟨.ite_neg (by decide) h, hb, hx⟩
  | parameter =>
    obtain ⟨_, hn, h, hb⟩ := h
    cases hn
    obtain ⟨x, xs, rfl, hx⟩ := hd.first rfl
    refine ⟨.ite_pos (by decide) h, hb, ?_⟩
    rw [show headKind (x :: xs ++ k) = x.kind from rfl, eq_of_beq hx]
    rfl

lemma accepts_argumentsEnd {form : ArgumentForm}
    (h : headKind k = .rightParen ∨ (form ≠ .keyword ∧ bindingAhead k = true)) :
    Accepts limit a (.arguments form) [] k [] := by
  cases form with
  | keyword => exact fun hk _ _ _ _ hb => yields_argumentList_close hk hb
  | value | parameter =>
    intro vs k' ms hk _ _ hks opener bound hb
    exact hks _ _ _ _ (by rw [← hk]; exact hb)

lemma accepts_argumentsLast {form : ArgumentForm} (hd : Derives a (.argument form) ts k [n])
    (h : Accepts limit a (.argument form) ts k [n]) (hk : headKind k = .rightParen) :
    Accepts limit a (.arguments form) ts k [n] := by
  have hlen {bound : Nat} (hb : (ts ++ k).length ≤ bound + 1) (hne : ts ≠ []) :
      k.length ≤ bound := by
    have := List.length_pos_iff.mpr hne
    rw [List.length_append] at hb
    omega
  have hne : ts ≠ [] := by
    cases form with
    | keyword | value | parameter =>
      obtain ⟨x, xs, rfl, -⟩ := hd.first rfl
      exact List.cons_ne_nil x xs
  have hpos (hf : form ≠ .keyword) : ∀ vs k' ms, k = vs ++ k' → headKind k' = .rightParen →
      Derives a (.arguments .keyword) vs k' ms → ∀ opener bound, (ts ++ k).length ≤ bound →
      Yields (argumentList (readValue limit a) (form == .parameter) opener bound false) []
        (ts ++ vs) k' ([n], ms) := by
    intro vs k' ms hvs hk' hkd opener bound hb
    obtain ⟨hy, hbind, hbegin⟩ := yields_positional hf hd h
    -- no named argument follows before the closing parenthesis
    obtain ⟨rfl, rfl⟩ : vs = [] ∧ ms = [] := by
      cases hkd with
      | argumentsEnd => exact ⟨rfl, rfl⟩
      | argumentsLast h =>
        obtain ⟨x, xs, rfl, hx⟩ := h.first rfl
        rw [hvs, show headKind (x :: xs ++ k') = x.kind from rfl, eq_of_beq hx] at hk
        cases hk
      | argumentsMore h =>
        obtain ⟨x, xs, rfl, hx⟩ := h.first rfl
        rw [hvs, List.cons_append, List.cons_append, show headKind (x :: _) = x.kind from rfl,
          eq_of_beq hx] at hk
        cases hk
    rw [List.nil_append] at hvs
    subst hvs
    rw [List.append_nil]
    cases bound with
    | zero => simp [hne] at hb
    | succ bound =>
      refine yields_argumentList_positional hbind hbegin (.bind_all hy ?_)
      exact .bind_none (yields_argumentSeparator_close hk)
        (.bind_all (.of_nil (yields_argumentList_close hk (hlen hb hne))) (.pure _))
  cases form with
  | keyword =>
    obtain ⟨_, hn, h, hb⟩ := h
    cases hn
    intro _ definition opener named bound hbound
    cases bound with
    | zero => simp [hne] at hbound
    | succ bound =>
      refine yields_argumentList_keyword hb (.bind_all h ?_)
      exact .bind_none (yields_argumentSeparator_close hk)
        (.bind_all (.of_nil (yields_argumentList_close hk (hlen hbound hne))) (.pure _))
  | value | parameter =>
    intro vs k' ms hvs hk' hkd _ opener bound hb
    exact hpos (by decide) vs k' ms hvs hk' hkd opener bound hb

lemma accepts_argumentsMore {form : ArgumentForm} {c : Token}
    (hd : Derives a (.argument form) ts (c :: (us ++ k)) [n])
    (h : Accepts limit a (.argument form) ts (c :: (us ++ k)) [n]) (hc : c.kind = .comma)
    (hk : headKind (us ++ k) ≠ .rightParen) (hs : Accepts limit a (.arguments form) us k ns) :
    Accepts limit a (.arguments form) (ts ++ c :: us) k (n :: ns) := by
  have hlen {bound : Nat} (hb : (ts ++ c :: us ++ k).length ≤ bound + 1) :
      (us ++ k).length ≤ bound := by
    simp only [List.length_append, List.length_cons] at hb ⊢
    omega
  cases form with
  | keyword =>
    obtain ⟨_, hn, h, hb⟩ := h
    cases hn
    intro hk' definition opener named bound hbound
    cases bound with
    | zero => simp at hbound
    | succ bound =>
      refine yields_argumentList_keyword (by simpa using hb) (.bind h ?_)
      exact .bind_one (yields_argumentSeparator_comma hc hk)
        (.bind_all (.of_nil (hs hk' _ _ _ _ (hlen hbound))) (.pure _))
  | value | parameter =>
    intro vs k' ms hvs hk' hkd hks opener bound hbound
    subst hvs
    obtain ⟨hy, hbind, hbegin⟩ := yields_positional (by decide) hd h
    cases bound with
    | zero => simp at hbound
    | succ bound =>
      have hrest := hs vs k' ms rfl hk' hkd hks opener bound (hlen hbound)
      rw [List.append_assoc, List.cons_append]
      refine yields_argumentList_positional (by simpa using hbind) (by simpa using hbegin) ?_
      exact .bind (by simpa using hy) (.bind_one
        (yields_argumentSeparator_comma hc (by simpa using hk)) (.bind_all (.of_nil hrest) (.pure _)))

/-- No argument starts with a comma. -/
lemma Derives.arguments_head {form : ArgumentForm} (h : Derives a (.arguments form) ts k ns)
    (hk : headKind k ≠ .comma) : headKind (ts ++ k) ≠ .comma := by
  have hfirst {ts us k' : List Token} {n : Node} (h : Derives a (.argument form) ts k' [n]) :
      headKind (ts ++ us) ≠ .comma := by
    cases form with
    | value | parameter | keyword =>
      obtain ⟨x, xs, rfl, hx⟩ := h.first rfl
      rw [List.cons_append, show headKind (x :: (xs ++ us)) = x.kind from rfl]
      intro he
      rw [he] at hx
      cases hx
  cases h with
  | argumentsEnd => exact hk
  | argumentsLast h => exact hfirst h
  | argumentsMore h =>
    rw [List.append_assoc]
    exact hfirst h

/-- Arguments and the closing parenthesis, behind a comma that a definition may
open with. -/
lemma yields_arguments {ls : List Token} {form : ArgumentForm} {c : Token} {xs ys : List Node}
    (opener : Token) (hf : form ≠ .keyword) (hl : form = .value → ls = [])
    (hlead : LeadingComma ls (us ++ (vs ++ c :: k)))
    (hxd : Derives a (.arguments form) us (vs ++ c :: k) xs)
    (hx : Accepts limit a (.arguments form) us (vs ++ c :: k) xs)
    (hyd : Derives a (.arguments .keyword) vs (c :: k) ys)
    (hy : Accepts limit a (.arguments .keyword) vs (c :: k) ys) (hc : c.kind = .rightParen) :
    Yields (arguments (readValue limit a) (form == .parameter) opener) []
      (ls ++ (us ++ (vs ++ [c]))) k
      (argumentsNode .positionalArgs opener c xs, argumentsNode .keywordArgs opener c ys) := by
  have hlist : ∀ bound, (us ++ (vs ++ c :: k)).length ≤ bound →
      Yields (argumentList (readValue limit a) (form == .parameter) opener bound false) []
        (us ++ vs) (c :: k) (xs, ys) := by
    intro bound hb
    cases form with
    | keyword => exact absurd rfl hf
    | value | parameter =>
      exact hx vs (c :: k) ys rfl hc hyd (hy hc) opener bound hb
  have hrest (ps : List Token) : Yields (tokensLeft >>= fun bound =>
      argumentList (readValue limit a) (form == .parameter) opener bound false >>= fun r =>
        Parse.advance >>= fun closer =>
          pure (Node.spanning .positionalArgs opener.place closer.stop r.1,
            Node.spanning .keywordArgs opener.place closer.stop r.2)) ps (us ++ (vs ++ [c])) k
      (argumentsNode .positionalArgs opener c xs, argumentsNode .keywordArgs opener c ys) := by
    refine .tokensLeft_bind ?_
    rw [← List.append_assoc]
    refine .bind (.of_nil (hlist _ (by simp))) (.bind_one (.advance (by simp [hc])) (.pure _))
  -- the first of the arguments is no comma
  have hfirst : headKind (us ++ (vs ++ c :: k)) ≠ .comma :=
    hxd.arguments_head (hyd.arguments_head (by simp [headKind, hc]))
  unfold arguments
  cases form with
  | keyword => exact absurd rfl hf
  | value =>
    obtain rfl := hl rfl
    exact hrest []
  | parameter =>
    refine .ite_pos (by decide) ?_
    cases hlead with
    | none =>
      refine .bind_none (y := ()) (.get_bind fun s hs => .ite_neg ?_ (.pure _)) (hrest [])
      rw [List.nil_append, List.append_assoc, List.append_assoc] at hs
      simp only [Parser.current_kind, hs]
      simp [hfirst]
    | @comma t _ hk hb =>
      refine .bind_one (y := ()) (.get_bind fun s hs => .ite_pos ?_ ?_) (hrest _)
      · simp only [bindingAhead, Bool.and_eq_true, beq_iff_eq] at hb
        have hrest' : s.rest = t :: (us ++ (vs ++ c :: k)) := by simpa using hs
        simp [Parser.current_kind, Parser.peek_kind, hrest', hk, hb]
      · rw [← bind_pure (discard Parse.advance)]
        exact .discard_bind (.bind_one (.advance (by simp [hk])) (.pure _))

lemma accepts_call {o c : Token} {xs ys : List Node}
    (hnd : Derives (b + 1) (.name m) ts (o :: (us ++ (vs ++ c :: k))) [n])
    (hn : Accepts limit (b + 1) (.name m) ts (o :: (us ++ (vs ++ c :: k))) [n])
    (ho : callAhead m [o] = true) (hxd : Derives b (.arguments .value) us (vs ++ c :: k) xs)
    (hx : Accepts limit b (.arguments .value) us (vs ++ c :: k) xs)
    (hyd : Derives b (.arguments .keyword) vs (c :: k) ys)
    (hy : Accepts limit b (.arguments .keyword) vs (c :: k) ys) (hc : c.kind = .rightParen) :
    Accepts limit (b + 1) (.primary m) (ts ++ o :: (us ++ (vs ++ [c]))) k
      [callNode n o c xs ys] := by
  obtain ⟨_, hn', hn⟩ := hn
  cases hn'
  have hok : o.kind = .leftParen := by
    simp only [callAhead, headKind, Bool.and_eq_true, beq_iff_eq] at ho
    exact ho.1
  refine ⟨_, rfl, yields_primary_name (by simpa using hnd) ?_⟩
  refine .bind (by simpa using hn) (.current_cons (.ite_pos ho ?_))
  have hargs := yields_arguments o (by decide) (fun _ => rfl) .none hxd hx hyd hy hc
  rw [List.nil_append] at hargs
  have hstop : lastStop (us ++ (vs ++ [c])) = c.stop := by
    rw [← List.append_assoc, lastStop_concat]
  refine .bind_one (.expect (by simp [hok]) (by simp [hok])) ?_
  unfold callNode
  rw [← hstop]
  refine .bind_all (y := (argumentsNode .positionalArgs o c xs, argumentsNode .keywordArgs o c ys))
    (.of_nil ?_) (.node_of_append (by simp))
  show Yields (arguments (derive limit true b (.expression 1 false)) false o) _ _ _ _
  rw [derive_eq]
  exact hargs

/-! ### Matrices -/

lemma accepts_elementsEnd (h : endsRow (headKind k) = true) :
    Accepts limit a .elements [] k [] := by
  intro bound _
  cases bound with
  | zero => exact .pure _
  | succ bound =>
    refine .current_bind fun t ht _ => .ite_pos ?_ (.pure _)
    rwa [ht]

/-- An expression does not start with a token that ends a row. -/
lemma not_endsRow (hd : Derives a (.expression least m) ts k ns) :
    ¬endsRow (headKind (ts ++ us)) = true := by
  obtain ⟨x, xs, rfl, hx⟩ := hd.first rfl
  rw [List.cons_append, show headKind (x :: (xs ++ us)) = x.kind from rfl]
  intro he
  revert hx he
  cases x.kind <;> simp [endsRow, beginsExpression, beginsOperand, TokenKind.isUnary]

lemma accepts_elementsMore (hd : Derives a (.expression 1 true) ts (us ++ k) [n])
    (h : Accepts limit a (.expression 1 true) ts (us ++ k) [n]) (hk : headKind (us ++ k) ≠ .comma)
    (hs : Accepts limit a .elements us k ns) : Accepts limit a .elements (ts ++ us) k (n :: ns) := by
  obtain ⟨_, hn, h⟩ := h
  cases hn
  intro bound hb
  have hpos := List.length_pos_iff.mpr hd.ne_nil
  simp only [List.length_append] at hb
  cases bound with
  | zero => omega
  | succ bound =>
    refine .current_bind fun t ht _ => .ite_neg ?_ ?_
    · rw [ht, List.append_assoc]
      exact not_endsRow hd
    · rw [derive_eq]
      refine .bind h (.discard_bind (.bind_none (.accept_none hk) ?_))
      refine .bind_all (.of_nil (hs bound ?_)) (.pure _)
      rw [List.length_append]
      omega

lemma accepts_elementsComma {c : Token}
    (hd : Derives a (.expression 1 true) ts (c :: (us ++ k)) [n])
    (h : Accepts limit a (.expression 1 true) ts (c :: (us ++ k)) [n]) (hc : c.kind = .comma)
    (hs : Accepts limit a .elements us k ns) :
    Accepts limit a .elements (ts ++ c :: us) k (n :: ns) := by
  obtain ⟨_, hn, h⟩ := h
  cases hn
  intro bound hb
  simp only [List.length_append, List.length_cons] at hb
  cases bound with
  | zero => omega
  | succ bound =>
    refine .current_bind fun t ht _ => .ite_neg ?_ ?_
    · rw [ht, List.append_assoc]
      exact not_endsRow hd
    · rw [derive_eq, ← hc]
      refine .bind h (.discard_bind (.bind_one (.accept_some (by simp [hc])) ?_))
      refine .bind_all (.of_nil (hs bound ?_)) (.pure _)
      rw [List.length_append]
      omega

lemma accepts_rowsLast {t : Token} {last : Node}
    (h : Accepts limit a .elements (t :: ts) k ns) (hl : ns.getLast? = some last) :
    Accepts limit a .rows (t :: ts) k [.spanning .lastRow t.place last.stop ns] := by
  intro c k' opener hk hc ho bound hb
  subst hk
  cases bound with
  | zero => simp at hb
  | succ bound =>
    refine .current_cons (.tokensLeft_bind ?_)
    show Yields _ _ ((t :: ts) ++ [c]) _ _
    refine .bind (h _ (by simp)) ?_
    simp only [hl]
    refine .current_cons (.ite_neg (by simp [hc]) (.discard_bind ?_))
    exact .bind_one (.close (by rw [ho, hc]; rfl) (by simp [hc])) (.pure _)

lemma accepts_rowsMore {t c : Token} (h : Accepts limit a .elements (t :: ts) (c :: (us ++ k)) ns)
    (hn : ns ≠ []) (hc : c.kind = .semicolon) (hs : Accepts limit a .rows us k ms) :
    Accepts limit a .rows (t :: (ts ++ c :: us)) k
      (.spanning .matrixRow t.place c.stop ns :: ms) := by
  intro d k' opener hk hd ho bound hb
  subst hk
  obtain ⟨last, hl⟩ : ∃ last, ns.getLast? = some last := by
    cases hl : ns.getLast? with
    | none => exact absurd (List.getLast?_eq_none_iff.mp hl) hn
    | some last => exact ⟨last, rfl⟩
  simp only [List.length_append, List.length_cons, List.cons_append] at hb
  cases bound with
  | zero => omega
  | succ bound =>
    have hassoc : t :: (ts ++ c :: us) ++ [d] = t :: (ts ++ (c :: (us ++ [d]))) := by simp
    rw [hassoc]
    refine .current_cons (.tokensLeft_bind ?_)
    have helements := h (t :: (ts ++ (c :: (us ++ [d]))) ++ k').length (by simp)
    show Yields _ _ ((t :: ts) ++ (c :: (us ++ [d]))) _ _
    refine .bind (by simpa using helements) ?_
    simp only [hl]
    refine .current_cons (.ite_pos (by simp [hc]) (.discard_bind ?_))
    refine .bind_one (.advance (by simp [hc])) (.bind_none (.node_of_append (by simp)) ?_)
    refine .bind_all (.of_nil (hs d k' opener rfl hd ho bound ?_)) (.pure _)
    simp only [List.length_append, List.length_cons]
    omega

/-! ### Strings -/

lemma accepts_segmentsPlain {seg : Segment Token} {segs : List (Segment Token)}
    (hf : ∀ tokens, seg.form ≠ .snippet tokens)
    (h : Accepts limit a (.segments segs) [] [] ns) :
    Accepts limit a (.segments (seg :: segs)) [] [] (plainSegment seg :: ns) := by
  intro s
  obtain ⟨t, ht, hm⟩ := h s
  have hone : segmentNode (level limit true a) seg s = .ok (plainSegment seg) s := by
    unfold segmentNode plainSegment
    cases hform : seg.form with
    | snippet tokens => exact absurd hform (hf tokens)
    | _ => rfl
  refine ⟨t, ?_, ?_⟩
  · rw [List.mapM_cons, bind_ok hone, bind_ok ht]
    rfl
  · have hnil : segmentComments (seg :: segs) = segmentComments segs := by
      unfold segmentComments
      rw [List.flatMap_cons]
      cases hform : seg.form with
      | snippet tokens => exact absurd hform (hf tokens)
      | _ => rfl
    rwa [hnil]

lemma onTokens_ok {α : Type} {tokens s u : Parser} {body : Parse α} {y : α}
    (h : body { tokens with trace := s.trace } = .ok y u) :
    onTokens tokens body s = .ok y { s with trace := u.trace } := by
  simp only [onTokens, h]

lemma accepts_segmentsSnippet {seg : Segment Token} {segs : List (Segment Token)}
    {tokens : List Token} (hf : seg.form = .snippet tokens)
    (hs : (Parser.settle 0 none tokens).1 = ts ++ k)
    (hd : Derives a (.expression 1 false) ts k [n])
    (he : Accepts limit a (.expression 1 false) ts k [n]) (hk : headKind k = .eof)
    (h : Accepts limit a (.segments segs) [] [] ns) :
    Accepts limit a (.segments (seg :: segs)) [] [] (snippetNode seg n :: ns) := by
  obtain ⟨_, hn, he⟩ := he
  cases hn
  intro s
  -- the snippet is read on its own tokens
  have hexpression : ∃ u, snippetExpression (level limit true a) seg tokens s = .ok n u
      ∧ Moves s u [] [] (Parser.settle 0 none tokens).2 := by
    have hfirst : ¬((Parser.ofTokens tokens).current.kind == .eof) = true := by
      obtain ⟨x, xs, rfl, hx⟩ := hd.first rfl
      rw [Parser.current_kind]
      show ¬(headKind (Parser.settle 0 none tokens).1 == .eof) = true
      rw [hs, show headKind (x :: xs ++ k) = x.kind from rfl]
      intro hx'
      rw [eq_of_beq hx'] at hx
      cases hx
    unfold snippetExpression
    rw [run_note, run_modify, if_neg hfirst]
    have hinner : Yields (anyExpression (level limit true a) >>= fun e => current >>= fun t =>
        if (t.kind != .eof) = true then
          Parse.fail (.leftoverInSnippet (.of t)) t.span >>= fun _ : Unit => pure e
        else pure e) [] ts k n := by
      refine .bind_all he (.current_bind fun t ht _ => .ite_neg ?_ (.pure _))
      rw [ht, List.nil_append, hk]
      decide
    obtain ⟨u, hu, -⟩ := hinner { Parser.ofTokens tokens with
      trace := .snippetParsed seg.line seg.col :: s.trace } hs fun hne => absurd rfl hne
    exact ⟨_, onTokens_ok hu, rfl, rfl, by simp, rfl⟩
  obtain ⟨u, hu, hmoves⟩ := hexpression
  obtain ⟨t, ht, hm⟩ := h u
  have hone : segmentNode (level limit true a) seg s = .ok (snippetNode seg n) u := by
    unfold segmentNode
    rw [hf]
    exact bind_eq_ok.mpr ⟨n, u, hu, rfl⟩
  refine ⟨t, ?_, ?_⟩
  · rw [List.mapM_cons, bind_ok hone, bind_ok ht]
    rfl
  · have := hmoves.trans hm
    simpa [segmentComments, hf] using this

lemma accepts_string {t : Token} (ht : t.kind = .string)
    (h : Accepts limit a (.segments t.segments) [] [] ns) :
    Accepts limit a (.primary m) [t] k [stringNode t ns] := by
  refine ⟨_, rfl, .get_bind fun s hs => ?_⟩
  rw [Parser.current_of_rest hs, ht]
  intro s hs _
  have hrest : s.rest = t :: k := hs
  have hexpect : Parse.expect [.string] s = .ok t s.step := by
    unfold Parse.expect
    rw [run_current, Parser.current_of_rest hrest, if_pos (by simp [ht])]
    show EStateM.Result.ok s.current s.step = _
    rw [Parser.current_of_rest hrest]
  obtain ⟨u, hu, hm⟩ := h s.step
  refine ⟨u, ?_, ?_⟩
  · show Grammar.string _ s = _
    unfold Grammar.string
    rw [bind_ok hexpect, bind_ok hu]
    rfl
  · have := (Moves.step hrest).trans hm
    simpa [Passes, Token.snippetComments, ht, segmentComments] using this

/-! ### Simple statements -/

/-- A statement that is chosen by its first token. -/
lemma yields_statement {x : Token} {f : Parse Node}
    (hf : ∀ s : Parser, s.rest = x :: ts ++ k → statement (level limit true a) loops s = f s)
    (h : Yields f [] (x :: ts) k n) :
    Yields (statement (level limit true a) loops) [] (x :: ts) k n := by
  intro s hs hp
  rw [hf s hs]
  exact h s hs hp

lemma yields_semicolon {ps : List Token} {mark : Option String} (hm : Mark ts k mark) :
    Yields semicolon ps ts k mark := by
  unfold semicolon
  cases hm with
  | none hk => exact .bind_none (.accept_none hk) (.pure _)
  | semicolon ht =>
    rw [← ht]
    exact .bind_one (.accept_some (by simp [ht])) (.pure _)

lemma accepts_assignment {x e : Token} {mark : Option String} {us : List Token}
    (hx : x.kind = .identifier) (he : e.kind = .assign)
    (hd : Derives a (.expression 1 false) ts (us ++ k) [n])
    (h : Accepts limit a (.expression 1 false) ts (us ++ k) [n]) (hm : Mark us k mark) :
    Accepts limit a (.statement loops) (x :: e :: (ts ++ us)) k
      [.spanning .assignment x.place (lastStop (ts ++ us)) [.leaf .identifier x, n]
        [(.assignName, [0]), (.assignExpr, [1])] mark] := by
  obtain ⟨_, hn, h⟩ := h
  cases hn
  refine ⟨_, rfl, yields_statement (f := assignment (level limit true a)) (fun s hs => ?_) ?_⟩
  · unfold statement
    rw [run_get]
    simp only [Parser.current_of_rest hs, hx, Parser.peek_kind, List.drop_one, hs]
    simp [he]
  unfold assignment
  rw [← hx]
  refine .bind_one (.leafOf (by simp [hx])) (.discard_bind ?_)
  refine .bind_one (.expect (by simp [he]) (by simp [he])) (.bind (.of_nil h) ?_)
  refine .bind_all (yields_semicolon hm) ?_
  rw [List.append_assoc]
  exact .node_of_append (by simp [hd.ne_nil])

lemma accepts_expressionStatement {mark : Option String} {us : List Token}
    (hd : Derives a (.expression 1 false) ts (us ++ k) [n])
    (h : Accepts limit a (.expression 1 false) ts (us ++ k) [n])
    (hb : bindingAhead (ts ++ (us ++ k)) = false) (hm : Mark us k mark) :
    Accepts limit a (.statement loops) (ts ++ us) k
      [.spanning .expressionStatement n.place (lastStop (ts ++ us)) [n] [] mark] := by
  obtain ⟨_, hn, h⟩ := h
  cases hn
  have hread : Yields (expressionStatement (level limit true a)) [] (ts ++ us) k
      (.spanning .expressionStatement n.place (lastStop (ts ++ us)) [n] [] mark) := by
    refine .bind h (.bind_all (yields_semicolon hm) ?_)
    rw [List.append_assoc]
    exact .node_of_append (by simp [hd.ne_nil])
  obtain ⟨x, xs, rfl, hx⟩ := hd.first rfl
  refine ⟨_, rfl, yields_statement (fun s hs => ?_) hread⟩
  unfold statement
  rw [run_get]
  have hrest : s.rest = x :: (xs ++ (us ++ k)) := by simpa using hs
  simp only [Parser.current_of_rest hs, Parser.peek_kind, List.drop_one, hrest, List.tail_cons]
  cases hk : x.kind with
  | identifier =>
    have hassign : ¬(headKind (xs ++ (us ++ k)) == .assign) = true := by
      simpa [bindingAhead, hk] using hb
    rw [if_neg hassign]
  | comment | kwSym | kwIf | kwWhile | kwFor | kwFn | kwImport | kwRet | kwBreak | kwCont
  | kwExit | rightParen | rightBracket | rightBrace | kwElse | kwElseif =>
    rw [hk] at hx
    cases hx
  | _ => rfl

lemma accepts_symbolDeclaration {t x : Token} (ht : t.kind = .kwSym) (hx : x.kind = .identifier) :
    Accepts limit a (.statement loops) [t, x] k
      [.spanning .symbolDeclaration t.place x.stop [.leaf .identifier x] [(.symName, [0])]] := by
  refine ⟨_, rfl, yields_statement (f := symbolDeclaration) (fun s hs => ?_) ?_⟩
  · unfold statement
    rw [run_get]
    simp only [Parser.current_of_rest hs, ht]
  unfold symbolDeclaration
  rw [← hx]
  refine .bind_one (.expect (by simp [ht]) (by simp [ht])) (.bind_one (.leafOf (by simp [hx])) ?_)
  exact .node_of_append (List.cons_ne_nil x [])

lemma accepts_importStatement {t : Token} (ht : t.kind = .kwImport)
    (hd : Derives a (.name false) ts k [n]) (h : Accepts limit a (.name false) ts k [n]) :
    Accepts limit a (.statement loops) (t :: ts) k
      [.spanning .importStatement t.place (lastStop ts) [n] [(.moduleName, [0])]] := by
  obtain ⟨_, hn, h⟩ := h
  cases hn
  refine ⟨_, rfl, yields_statement (f := importStatement) (fun s hs => ?_) ?_⟩
  · unfold statement
    rw [run_get]
    simp only [Parser.current_of_rest hs, ht]
  obtain ⟨x, xs, rfl, hx⟩ := hd.first rfl
  unfold importStatement
  refine .bind_one (.expect (by simp [ht]) (by simp [ht])) (.current_cons (.ite_neg ?_ ?_))
  · simpa using hx
  · exact .bind_all (.of_nil h) (.node_of_append (by simp))

lemma accepts_returnStatement {t : Token} (ht : t.kind = .kwRet)
    (hd : Derives a (.expression 1 false) ts k [n])
    (h : Accepts limit a (.expression 1 false) ts k [n]) :
    Accepts limit a (.statement loops) (t :: ts) k
      [.spanning .returnStatement t.place (lastStop ts) [n] [(.retExpr, [0])]] := by
  obtain ⟨_, hn, h⟩ := h
  cases hn
  refine ⟨_, rfl, yields_statement (f := returnStatement (level limit true a)) (fun s hs => ?_) ?_⟩
  · unfold statement
    rw [run_get]
    simp only [Parser.current_of_rest hs, ht]
  exact .bind_one (.expect (by simp [ht]) (by simp [ht]))
    (.bind_all (.of_nil h) (.node_of_append hd.ne_nil))

lemma accepts_loopControl {t : Token} (ht : t.kind = .kwBreak ∨ t.kind = .kwCont)
    (hl : loops ≠ 0) :
    Accepts limit a (.statement loops) [t] k [.leaf (.ofName t.value) t] := by
  refine ⟨_, rfl, yields_statement (f := loopControl loops) (fun s hs => ?_) ?_⟩
  · unfold statement
    rw [run_get]
    rcases ht with ht | ht <;> simp only [Parser.current_of_rest hs, ht]
  have hstr : t.kind ≠ .string := by
    rcases ht with ht | ht <;> simp [ht]
  exact .bind_one (.advance hstr) (.ite_neg hl (.pure _))

/-! ### Blocks -/

lemma accepts_block {o c : Token} (ho : o.kind = .leftBrace)
    (h : Accepts limit b (.statements loops true) ts (c :: k) ns) (hc : c.kind = .rightBrace) :
    Accepts limit (b + 1) (.block loops) (o :: (ts ++ [c])) k
      [.spanning .block o.place c.stop ns] := by
  refine ⟨_, rfl, .current_cons (.ite_neg (by simp [ho]) (.discard_bind ?_))⟩
  rw [← lastStop_concat ts c]
  refine .bind_one (.advance (by simp [ho])) (.bind_all ?_ (.node_of_append (by simp)))
  show Yields (tokensLeft >>= fun bound => statements true (derive limit true b (.statement loops))
    (some .rightBrace) bound >>= _) _ _ _ _
  rw [derive_eq]
  refine .tokensLeft_bind (.bind (.of_nil (h _ (by simp))) (.discard_bind ?_))
  exact .bind_one (.close (by rw [ho, hc]; rfl) (by simp [hc])) (.pure _)

lemma accepts_statementsEnd {inBlock : Bool}
    (h : headKind k = .eof ∨ (inBlock = true ∧ headKind k = .rightBrace)) :
    Accepts limit a (.statements loops inBlock) [] k [] := by
  intro bound _
  cases bound with
  | zero => exact .pure _
  | succ bound =>
    refine .current_bind fun t ht _ => ?_
    rw [ht, List.nil_append]
    refine .ite_neg ?_ (.ite_pos ?_ (.pure _))
    · rcases h with h | ⟨-, h⟩ <;> simp [h, TokenKind.isSeparator]
    · rcases h with h | ⟨rfl, h⟩ <;> simp [h, blockCloser]

lemma accepts_statementsSeparator {inBlock : Bool} {t : Token} (ht : t.kind.isSeparator = true)
    (h : Accepts limit a (.statements loops inBlock) ts k ns) :
    Accepts limit a (.statements loops inBlock) (t :: ts) k ns := by
  intro bound hb
  have hstr : t.kind ≠ .string := by
    intro he
    rw [he] at ht
    cases ht
  simp only [List.cons_append, List.length_cons] at hb
  cases bound with
  | zero => omega
  | succ bound =>
    refine .current_cons (.ite_pos ht (.discard_bind ?_))
    exact .bind_one (.advance hstr) (.of_nil (h bound (by omega)))

lemma accepts_statementsMore {inBlock : Bool}
    (hd : Derives a (.statement loops) ts (us ++ k) [n])
    (h : Accepts limit a (.statement loops) ts (us ++ k) [n])
    (hs : Accepts limit a (.statements loops inBlock) us k ns) :
    Accepts limit a (.statements loops inBlock) (ts ++ us) k (n :: ns) := by
  obtain ⟨_, hn, h⟩ := h
  cases hn
  intro bound hb
  obtain ⟨x, xs, rfl, hx⟩ := hd.first rfl
  have hkind : x.kind.isSeparator = false ∧ x.kind ≠ .eof ∧ x.kind ≠ .rightBrace := by
    revert hx
    cases x.kind <;> simp [beginsStatement, beginsExpression, beginsOperand, TokenKind.isUnary,
      TokenKind.isSeparator]
  simp only [List.cons_append, List.length_cons, List.length_append] at hb
  cases bound with
  | zero => omega
  | succ bound =>
    refine .current_cons (.ite_neg (by simp [hkind.1]) (.ite_neg ?_ ?_))
    · cases inBlock <;> simp [blockCloser, hkind.2.1, hkind.2.2.symm]
    · rw [attempt_strict]
      show Yields _ _ ((x :: xs) ++ us) _ _
      refine .bind h (.bind_all (.of_nil (hs bound ?_)) (.pure _))
      rw [List.length_append]
      omega

/-! ### Statements with blocks -/

lemma clauseKind_of_newlines {ls : List Token} {x : Token} (hl : ∀ l ∈ ls, l.kind = .newline)
    (hx : x.kind ≠ .newline) (k : List Token) : clauseKind (ls ++ x :: k) = x.kind := by
  have hdrop : (ls ++ x :: k).dropWhile (·.kind == .newline) = x :: k := by
    rw [List.dropWhile_append_of_pos (by simpa using hl),
      List.dropWhile_cons_of_neg (by simpa using hx)]
  rw [clauseKind, hdrop, headKind_cons]

/-- The line ends before a clause, and the clause. -/
lemma atClause_of_newlines {ls us : List Token} {x : Token} {s : Parser}
    (hl : ∀ l ∈ ls, l.kind = .newline) (hx : x.kind ≠ .newline) (hs : s.rest = ls ++ x :: us) :
    Passes s (atClause s) ls ∧ (atClause s).rest = x :: us := by
  have htake : s.rest.takeWhile (·.kind == .newline) = ls := by
    rw [hs, List.takeWhile_append_of_pos (by simpa using hl),
      List.takeWhile_cons_of_neg (by simpa using hx), List.append_nil]
  have hm := Moves.forward ls.length s
  rw [hs, List.take_left] at hm
  have hcomments : ls.flatMap Token.snippetComments = [] := by
    rw [List.flatMap_eq_nil_iff]
    intro l hmem
    exact Token.snippetComments_of_kind (by rw [hl l hmem]; decide)
  have hat : atClause s = s.forward ls.length := by rw [atClause, htake]
  refine ⟨?_, ?_⟩
  · rw [Passes, hcomments, hat]
    exact hm
  · have := hm.rest
    rw [hs] at this
    rw [hat]
    exact (List.append_cancel_left this).symm

/-- A clause behind line ends. -/
lemma yields_clauses {ls : List Token} {x : Token} {seenElse : Bool} {bound : Nat}
    {f : Parse (List Node)} (hl : ∀ l ∈ ls, l.kind = .newline)
    (hx : x.kind = .kwElseif ∨ x.kind = .kwElse)
    (hf : ∀ s : Parser, s.significant.kind = x.kind →
      clauses (level limit true a) loops (bound + 1) seenElse s = f (atClause s))
    (h : Yields f [] (x :: ts) k ns) :
    Yields (clauses (level limit true a) loops (bound + 1) seenElse) [] (ls ++ x :: ts) k ns := by
  intro s hs _
  have hne : x.kind ≠ .newline := by rcases hx with hx | hx <;> simp [hx]
  have hrest : s.rest = ls ++ x :: (ts ++ k) := by simpa using hs
  obtain ⟨hp, hat⟩ := atClause_of_newlines hl hne hrest
  obtain ⟨t, ht, hpt⟩ := h (atClause s) hat fun hne => absurd rfl hne
  refine ⟨t, ?_, hp.trans hpt⟩
  rw [hf s (by rw [Parser.significant_kind, hrest, clauseKind_of_newlines hl hne]), ht]

lemma accepts_clausesEnd {seenElse : Bool} (h : clauseAhead k = false) :
    Accepts limit a (.clauses loops seenElse) [] k [] := by
  intro bound _ s hs _
  have hk : s.significant.kind ≠ .kwElseif ∧ s.significant.kind ≠ .kwElse := by
    rw [Parser.significant_kind, hs, List.nil_append]
    simpa [clauseAhead] using h
  exact ⟨s, clauses_end hk.1 hk.2 _ _ _, .refl s⟩

lemma accepts_clausesElseif {t : Token} {ls : List Token} {body : Node}
    (hl : ∀ l ∈ ls, l.kind = .newline) (ht : t.kind = .kwElseif)
    (h : Accepts limit a (.expression 1 false) ts (us ++ (vs ++ k)) [n])
    (hbd : Derives a (.block loops) us (vs ++ k) [body])
    (hb : Accepts limit a (.block loops) us (vs ++ k) [body])
    (hc : Accepts limit a (.clauses loops false) vs k ns) :
    Accepts limit a (.clauses loops false) (ls ++ t :: (ts ++ (us ++ vs))) k
      (.spanning .elseifClause t.place (lastStop us) [n, body]
        [(.condition, [0]), (.body, [1])] :: ns) := by
  obtain ⟨_, hn, h⟩ := h
  cases hn
  obtain ⟨_, hn, hb⟩ := hb
  cases hn
  intro bound hbound
  simp only [List.length_append, List.length_cons] at hbound
  cases bound with
  | zero => omega
  | succ bound =>
    refine yields_clauses hl (.inl ht)
      (fun s hs => clauses_elseif (hs.trans ht) loops bound false) ?_
    refine .bind_one (.advance (by simp [ht])) (.ite_neg (by simp) ?_)
    rw [← List.append_assoc] at h
    refine .bind (.of_nil h) (.bind (.of_nil hb) ?_)
    refine .bind_none (.node_of_append hbd.block_ne_nil) ?_
    refine .bind_all (.of_nil (hc bound ?_)) (.pure _)
    rw [List.length_append]
    omega

lemma accepts_clausesElse {t : Token} {ls : List Token} {body : Node}
    (hl : ∀ l ∈ ls, l.kind = .newline) (ht : t.kind = .kwElse)
    (hbd : Derives a (.block loops) us (vs ++ k) [body])
    (hb : Accepts limit a (.block loops) us (vs ++ k) [body])
    (hc : Accepts limit a (.clauses loops true) vs k ns) :
    Accepts limit a (.clauses loops false) (ls ++ t :: (us ++ vs)) k
      (.spanning .elseClause t.place (lastStop us) [body] [(.body, [0])] :: ns) := by
  obtain ⟨_, hn, hb⟩ := hb
  cases hn
  intro bound hbound
  simp only [List.length_append, List.length_cons] at hbound
  cases bound with
  | zero => omega
  | succ bound =>
    refine yields_clauses hl (.inr ht)
      (fun s hs => clauses_else (hs.trans ht) loops bound false) ?_
    refine .bind_one (.advance (by simp [ht])) (.ite_neg (by simp) (.bind (.of_nil hb) ?_))
    refine .bind_none (.node_of_append hbd.block_ne_nil) ?_
    refine .bind_all (.of_nil (hc bound ?_)) (.pure _)
    rw [List.length_append]
    omega

lemma accepts_ifStatement {t : Token} {body : Node} (ht : t.kind = .kwIf)
    (h : Accepts limit a (.expression 1 false) ts (us ++ (vs ++ k)) [n])
    (hbd : Derives a (.block loops) us (vs ++ k) [body])
    (hb : Accepts limit a (.block loops) us (vs ++ k) [body])
    (hc : Accepts limit a (.clauses loops false) vs k ns) :
    Accepts limit a (.statement loops) (t :: (ts ++ (us ++ vs))) k
      [.spanning .ifStatement t.place (lastStop (us ++ vs)) (n :: body :: ns)
        [(.condition, [0]), (.body, [1])]] := by
  obtain ⟨_, hn, h⟩ := h
  cases hn
  obtain ⟨_, hn, hb⟩ := hb
  cases hn
  refine ⟨_, rfl, yields_statement (f := ifStatement (level limit true a) loops)
    (fun s hs => ?_) ?_⟩
  · unfold statement
    rw [run_get]
    simp only [Parser.current_of_rest hs, ht]
  refine .bind_one (.expect (by simp [ht]) (by simp [ht])) ?_
  rw [← List.append_assoc] at h
  refine .bind (.of_nil h) (.bind (.of_nil hb) (.tokensLeft_bind ?_))
  refine .bind_all (.of_nil (hc _ (Nat.le_refl _))) ?_
  rw [List.append_assoc]
  exact .node_of_append (by simp [hbd.block_ne_nil])

lemma accepts_whileLoop {t : Token} {body : Node} (ht : t.kind = .kwWhile)
    (h : Accepts limit a (.expression 1 false) ts (us ++ k) [n])
    (hbd : Derives a (.block (loops + 1)) us k [body])
    (hb : Accepts limit a (.block (loops + 1)) us k [body]) :
    Accepts limit a (.statement loops) (t :: (ts ++ us)) k
      [.spanning .whileLoop t.place (lastStop us) [n, body]
        [(.loopExpr, [0]), (.loopBody, [1])]] := by
  obtain ⟨_, hn, h⟩ := h
  cases hn
  obtain ⟨_, hn, hb⟩ := hb
  cases hn
  refine ⟨_, rfl, yields_statement (f := whileLoop (level limit true a) loops)
    (fun s hs => ?_) ?_⟩
  · unfold statement
    rw [run_get]
    simp only [Parser.current_of_rest hs, ht]
  refine .bind_one (.expect (by simp [ht]) (by simp [ht])) (.bind (.of_nil h) ?_)
  exact .bind_all (.of_nil hb) (.node_of_append hbd.block_ne_nil)

lemma accepts_forLoop {t x i : Token} {body : Node} (ht : t.kind = .kwFor)
    (hx : x.kind = .identifier) (hi : i.kind = .kwIn)
    (h : Accepts limit a (.expression 1 false) ts (us ++ k) [n])
    (hbd : Derives a (.block (loops + 1)) us k [body])
    (hb : Accepts limit a (.block (loops + 1)) us k [body]) :
    Accepts limit a (.statement loops) (t :: x :: i :: (ts ++ us)) k
      [.spanning .forLoop t.place (lastStop us) [.leaf .identifier x, n, body]
        [(.loopVar, [0]), (.loopExpr, [1]), (.loopBody, [2])]] := by
  obtain ⟨_, hn, h⟩ := h
  cases hn
  obtain ⟨_, hn, hb⟩ := hb
  cases hn
  refine ⟨_, rfl, yields_statement (f := forLoop (level limit true a) loops)
    (fun s hs => ?_) ?_⟩
  · unfold statement
    rw [run_get]
    simp only [Parser.current_of_rest hs, ht]
  unfold forLoop
  rw [← hx]
  refine .bind_one (.expect (by simp [ht]) (by simp [ht])) (.bind_one (.leafOf (by simp [hx])) ?_)
  refine .discard_bind (.bind_one (.expect (by simp [hi]) (by simp [hi])) (.bind (.of_nil h) ?_))
  exact .bind_all (.of_nil hb) (.node_of_append hbd.block_ne_nil)

lemma accepts_functionDefinition {t x opener c : Token} {ls ws : List Token} {xs ys : List Node}
    {body : Node} (ht : t.kind = .kwFn) (hx : x.kind = .identifier)
    (ho : opener.kind = .leftParen) (hl : LeadingComma ls (us ++ (vs ++ c :: (ws ++ k))))
    (hpd : Derives a (.arguments .parameter) us (vs ++ c :: (ws ++ k)) xs)
    (hp : Accepts limit a (.arguments .parameter) us (vs ++ c :: (ws ++ k)) xs)
    (hyd : Derives a (.arguments .keyword) vs (c :: (ws ++ k)) ys)
    (hy : Accepts limit a (.arguments .keyword) vs (c :: (ws ++ k)) ys)
    (hc : c.kind = .rightParen) (hbd : Derives a (.block 0) ws k [body])
    (hb : Accepts limit a (.block 0) ws k [body]) :
    Accepts limit a (.statement loops)
      (t :: x :: opener :: (ls ++ (us ++ (vs ++ c :: ws)))) k
      [.spanning .functionDefinition t.place (lastStop ws)
        [.leaf .identifier x, argumentsNode .positionalArgs opener c xs,
          argumentsNode .keywordArgs opener c ys, body]
        [(.fnName, [0]), (.posArgs, [1]), (.keywordArgs, [2]), (.fnBody, [3])]] := by
  obtain ⟨_, hn, hb⟩ := hb
  cases hn
  refine ⟨_, rfl, yields_statement (f := functionDefinition (level limit true a))
    (fun s hs => ?_) ?_⟩
  · unfold statement
    rw [run_get]
    simp only [Parser.current_of_rest hs, ht]
  unfold functionDefinition
  rw [← hx]
  refine .bind_one (.expect (by simp [ht]) (by simp [ht])) (.bind_one (.leafOf (by simp [hx])) ?_)
  refine .bind_one (.expect (by simp [ho]) (by simp [ho])) ?_
  have hargs := yields_arguments opener (by decide) (by simp) hl hpd hp hyd hy hc
  have hassoc : ls ++ (us ++ (vs ++ c :: ws)) = ls ++ (us ++ (vs ++ [c])) ++ ws := by simp
  rw [hassoc]
  refine .bind (.of_nil hargs) ?_
  exact .bind_all (.of_nil hb) (.node_of_append hbd.block_ne_nil)

end

/-! ### All rules -/

/-- What is derived is read. -/
theorem Derives.accepts {a : Nat} {p : Phrase} {ts k : List Token} {ns : List Node}
    (h : Derives a p ts k ns) (limit : Int) : Accepts limit a p ts k ns := by
  induction h with
  | expression _ _ ihl iho => exact accepts_expression ihl iho
  | operatorsEnd h => exact accepts_operatorsEnd h
  | operatorsMore hop h _ hh _ ihr iho => exact accepts_operatorsMore hop h ihr hh iho
  | unaryPrefix hop _ ih => exact accepts_unaryPrefix hop ih
  | unaryPlain hp _ ihp ihs => exact accepts_unaryPlain hp ihp ihs
  | suffixesEnd h => exact accepts_suffixesEnd h
  | suffixesMore hop hh _ ih => exact accepts_suffixesMore hop hh ih
  | matrix ho _ hc ih => exact accepts_matrix ho ih hc
  | bracketed ho h hc ih => exact accepts_bracketed ho h ih hc
  | plainName h hk ih => exact accepts_plainName h ih hk
  | call hn ho hx hy hc ihn ihx ihy => exact accepts_call hn ihn ho hx ihx hy ihy hc
  | rangeOfTwo hx hd hy hk => exact accepts_rangeOfTwo hx hd hy hk
  | rangeOfThree hx hd hy he hz hk => exact accepts_rangeOfThree hx hd hy he hz hk
  | number ht hk hp => exact accepts_number ht hk hp
  | percentage ht hs => exact accepts_percentage ht hs
  | string ht _ ih => exact accepts_string ht ih
  | name ht _ ih => exact accepts_name ht ih
  | membersEnd h => exact accepts_membersEnd h
  | membersMore hd ht _ ih => exact accepts_membersMore hd ht ih
  | argumentValue _ hb ih =>
    obtain ⟨n, hn, ih⟩ := ih
    exact ⟨n, hn, ih, hb⟩
  | argumentName ht hb =>
    exact ⟨_, rfl, by rw [← ht]; exact .leafOf (by simp [ht]), hb⟩
  | argumentKeyword ht he h ih => exact accepts_argumentKeyword ht he h ih
  | argumentsEnd h => exact accepts_argumentsEnd h
  | argumentsLast h hk ih => exact accepts_argumentsLast h ih hk
  | argumentsMore h hc hk _ ih ihs => exact accepts_argumentsMore h ih hc hk ihs
  | elementsEnd h => exact accepts_elementsEnd h
  | elementsMore h hk _ ih ihs => exact accepts_elementsMore h ih hk ihs
  | elementsComma h hc _ ih ihs => exact accepts_elementsComma h ih hc ihs
  | rowsLast _ hl _ ih => exact accepts_rowsLast ih hl
  | rowsMore _ hn hc _ ih ihs => exact accepts_rowsMore ih hn hc ihs
  | segmentsNil => exact fun s => ⟨s, rfl, .refl s⟩
  | segmentsPlain hf _ ih => exact accepts_segmentsPlain hf ih
  | segmentsSnippet hf hs he hk _ ihe ih => exact accepts_segmentsSnippet hf hs he ihe hk ih
  | comment ht | exit ht =>
    refine ⟨_, rfl, yields_statement (f := tokenStatement _) (fun s hs => ?_)
      (.bind_one (.advance (by simp [ht])) (.pure _))⟩
    unfold statement
    rw [run_get]
    simp only [Parser.current_of_rest hs, ht]
  | loopControl ht hl => exact accepts_loopControl ht hl
  | symbolDeclaration ht hx => exact accepts_symbolDeclaration ht hx
  | importStatement ht h ih => exact accepts_importStatement ht h ih
  | returnStatement ht h ih => exact accepts_returnStatement ht h ih
  | assignment hx he h hm ih => exact accepts_assignment hx he h ih hm
  | expressionStatement h hb hm ih => exact accepts_expressionStatement h ih hb hm
  | ifStatement ht _ hb _ ih ihb ihc => exact accepts_ifStatement ht ih hb ihb ihc
  | whileLoop ht _ hb ih ihb => exact accepts_whileLoop ht ih hb ihb
  | forLoop ht hx hi _ hb ih ihb => exact accepts_forLoop ht hx hi ih hb ihb
  | functionDefinition ht hx ho hl hp hy hc hb ihp ihy ihb =>
    exact accepts_functionDefinition ht hx ho hl hp ihp hy ihy hc hb ihb
  | block ho _ hc ih => exact accepts_block ho ih hc
  | clausesEnd h => exact accepts_clausesEnd h
  | clausesElseif hl ht _ hb _ ih ihb ihc => exact accepts_clausesElseif hl ht ih hb ihb ihc
  | clausesElse hl ht hb _ ihb ihc => exact accepts_clausesElse hl ht hb ihb ihc
  | statementsEnd h => exact accepts_statementsEnd h
  | statementsSeparator ht _ ih => exact accepts_statementsSeparator ht ih
  | statementsMore h _ ih ihs => exact accepts_statementsMore h ih ihs

end StpLang
