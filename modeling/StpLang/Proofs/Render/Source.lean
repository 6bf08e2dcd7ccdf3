import StpLang.Grammar.Parser
import StpLang.Proofs.Schema.Basic
import StpLang.Render.Source

/-!
The text of nodes.

A node that has what its kind prescribes is written from the texts of its children.

* `textAt_zero`, `textsBelow_zero` and `statementsBelow_zero` find a child by its
  position.
* `expression_value` and the lemmas behind it give the text of each kind of expression.
* `run_comment` and the lemmas behind it give the lines of each kind of statement.
-/

namespace StpLang

open Source

/-! ### Nodes -/

/-- A node that is made with the labels of its kind. -/
lemma has_spanning {kind : Kind} {p : Place} {stop : Nat} {ns : List Node} {fields : FieldTable}
    {value : Option String} (h : kind.labels ns.length = fields) :
    (Node.spanning kind p stop ns fields value).Has kind ns value := ⟨rfl, rfl, h.symm, rfl⟩

lemma has_leaf {kind : Kind} {t : Token} (h : kind.labels 0 = []) :
    (Node.leaf kind t).Has kind [] (some t.value) := ⟨rfl, rfl, h.symm, rfl⟩

/-! ### Expressions -/

section

variable {e f l n o p q r x y : Node} {ns : List Node} {kind : Kind} {value : Option String}
  {op s s' w : String} {ss rs : List String}

-- One function gives the texts of all kinds of nodes: `simp` opens it at a known kind.
attribute [local simp] expressionAs

@[simp] lemma ok_bind {ε α β : Type} (a : α) (f : α → Except ε β) : (Except.ok a >>= f) = f a := rfl

@[simp] lemma pure_eq_ok {ε α : Type} (a : α) : (pure a : Except ε α) = .ok a := rfl

@[simp] lemma first?_cons {f g : Field} {i : Nat} {is : List Nat} {table : FieldTable} :
    FieldTable.first? ((g, i :: is) :: table) f
      = if f == g then some i else FieldTable.first? table f := by
  rw [FieldTable.first?, List.lookup_cons]
  split
  · rename_i h
    rw [h]
    rfl
  · rename_i h
    rw [h]
    rfl

@[simp] lemma textAt_zero : textAt (some 0) (n :: ns) = expression n := by rw [textAt, expression]

@[simp] lemma textAt_succ {i : Nat} : textAt (some (i + 1)) (n :: ns) = textAt (some i) ns := by
  rw [textAt]

@[simp] lemma textsBelow_zero : textsBelow (some 0) (n :: ns) = texts n.children := by
  cases n
  rw [textsBelow]

@[simp] lemma textsBelow_succ {i : Nat} :
    textsBelow (some (i + 1)) (n :: ns) = textsBelow (some i) ns := by
  cases n
  rw [textsBelow]

lemma texts_nil : texts [] = .ok [] := by
  rw [texts]
  rfl

lemma texts_cons (h : expression n = .ok s) (hs : texts ns = .ok ss) :
    texts (n :: ns) = .ok (s :: ss) := by
  rw [expression] at h
  simp [texts, h, hs]

lemma rowTexts_nil : rowTexts [] = .ok [] := by
  rw [rowTexts]
  rfl

lemma rowTexts_cons (h : texts n.children = .ok ss) (hs : rowTexts ns = .ok rs) :
    rowTexts (n :: ns) = .ok (Text.join " " ss :: rs) := by
  cases n
  rw [rowTexts]
  simp [h, hs]

/-- The text of a node does not depend on its place. -/
lemma Node.Has.expression_eq (h : e.Has kind ns value) :
    expression e
      = expressionAs kind (.spanning kind ⟨0, 0, 0⟩ 0 ns (kind.labels ns.length) value) := by
  obtain ⟨hk, hns, hfields, hv⟩ := h
  obtain ⟨k, v, l, c, i, j, cs, fs⟩ := e
  dsimp only at hk hns hfields hv
  subst hk hns hfields hv
  rw [expression, Node.spanning, expressionAs.eq_def, expressionAs.eq_def]

lemma expression_value (h : e.Has kind ns (some w))
    (hk : kind = .identifier ∨ kind = .memberAccess ∨ kind = .number ∨ kind = .percentage) :
    expression e = .ok w := by
  rw [h.expression_eq]
  rcases hk with rfl | rfl | rfl | rfl <;> simp [Node.spanning, expressionAs, valueText]

/-- Reading every segment in turn. -/
lemma mapM_range {ε : Type} (fallback : Except ε String) (ss : List String) :
    (List.range ss.length).mapM (fun i => ((ss.map Except.ok)[i]?).getD fallback) = .ok ss := by
  have hmapM {is : List Nat} {f : Nat → Except ε String} {g : Nat → String}
      (h : ∀ i ∈ is, f i = .ok (g i)) : is.mapM f = .ok (is.map g) := by
    induction is with
    | nil => rfl
    | cons i is ih =>
      rw [List.forall_mem_cons] at h
      rw [List.mapM_cons, h.1, ih h.2]
      rfl
  rw [hmapM (g := fun i => ss.getD i "")]
  · congr 1
    refine List.ext_getElem (by simp) fun i h _ => ?_
    simp at h
    simp [h]
  · intro i hi
    simp [List.mem_range.mp hi]

lemma length_segmentTexts (ns : List Node) : (segmentTexts ns).length = ns.length := by
  induction ns with
  | nil => simp [segmentTexts]
  | cons n ns ih =>
    cases n
    simp [segmentTexts, ih]

/-- The text of a piece other than a snippet. -/
lemma segmentTexts_cons (hv : x.value = some s) (hk : x.kind ≠ .snippet) :
    segmentTexts (x :: ns) = .ok s :: segmentTexts ns := by
  obtain ⟨kind, value, l, c, i, j, cs, fs⟩ := x
  dsimp only at hv hk
  subst hv
  rw [segmentTexts, beq_false_of_ne hk]
  rfl

lemma segmentTexts_snippet_cons (hx : x.Has .snippet [y] none) (hy : expression y = .ok s) :
    segmentTexts (x :: ns) = .ok ("\\\x7b" ++ s ++ "\\\x7d") :: segmentTexts ns := by
  obtain ⟨hk, hns, hfields, hv⟩ := hx
  obtain ⟨kind, value, l, c, i, j, cs, fs⟩ := x
  dsimp only at hk hns hfields hv
  subst hk hns hfields hv
  rw [segmentTexts]
  simp [Kind.labels, hy]

namespace Node.Has

lemma expression_binary (he : e.Has .binary [l, o, r] none) (hl : expression l = .ok s)
    (ho : o.value = some op) (hr : expression r = .ok s') :
    expression e = .ok (s ++ " " ++ op ++ " " ++ s') := by
  rw [he.expression_eq, Node.spanning]
  simp [Kind.labels, hl, hr, operatorAt, ho, valueText]

lemma expression_unary (he : e.Has .unary [o, x] none) (ho : o.value = some op)
    (hx : expression x = .ok s) : expression e = .ok (op ++ s) := by
  rw [he.expression_eq, Node.spanning]
  simp [Kind.labels, hx, operatorAt, ho, valueText]

lemma expression_suffix (he : e.Has .suffix [x, o] none) (hx : expression x = .ok s)
    (ho : o.value = some op) : expression e = .ok (s ++ op) := by
  rw [he.expression_eq, Node.spanning]
  simp [Kind.labels, hx, operatorAt, ho, valueText]

lemma expression_bracketed (he : e.Has .bracketed [x] none) (hx : expression x = .ok s) :
    expression e = .ok ("(" ++ s ++ ")") := by
  rw [he.expression_eq, Node.spanning]
  simp [hx]

lemma expression_range (he : e.Has .range ns none) (hs : texts ns = .ok ss) :
    expression e = .ok (Text.join "..." ss) := by
  rw [he.expression_eq, Node.spanning]
  simp [hs]

lemma expression_matrix (he : e.Has .matrix ns none) (hs : rowTexts ns = .ok ss) :
    expression e = .ok ("[" ++ Text.join "; " ss ++ "]") := by
  rw [he.expression_eq, Node.spanning]
  simp [hs]

lemma expression_call (he : e.Has .call [f, p, q] none) (hf : expression f = .ok s)
    (hp : texts p.children = .ok ss) (hq : texts q.children = .ok rs) :
    expression e = .ok (s ++ "(" ++ Text.join ", " (ss ++ rs) ++ ")") := by
  rw [he.expression_eq, Node.spanning]
  simp [Kind.labels, hf, hp, hq]

lemma expression_keyword (he : e.Has .keywordArg [l, r] none) (hl : expression l = .ok s)
    (hr : expression r = .ok s') : expression e = .ok (s ++ "=" ++ s') := by
  rw [he.expression_eq, Node.spanning]
  simp [Kind.labels, hl, hr]

lemma expression_string (he : e.Has .string ns none) (h : segmentTexts ns = ss.map .ok) :
    expression e = .ok ("\"" ++ String.join ss ++ "\"") := by
  have hlen : ns.length = ss.length := by
    rw [← length_segmentTexts, h, List.length_map]
  rw [he.expression_eq, Node.spanning, expressionAs, h, hlen]
  show ((List.range ss.length).mapM _ >>= _) = _
  rw [mapM_range]
  rfl

end Node.Has

end

/-! ### Statements -/

section

variable {α β : Type} {e n x pos key body : Node} {ns : List Node} {i : Nat}
  {value : Option String} {text name : String} {s s' : Sheet}

lemma run_lift {x : Except RenderFault α} {a : α} (h : x = .ok a) (f : α → Write β) (s : Sheet) :
    ((liftM x : Write α) >>= f) s = f a s := by
  subst h
  rfl

lemma run_then {body : Write Unit} (h : body s = .ok ((), s')) (f : Unit → Write β) :
    (body >>= f) s = f () s' := by
  simp [bind, StateT.bind, h, Except.bind]

@[simp] lemma statementsBelow_zero :
    statementsBelow (some 0) (n :: ns) = statements n.children := by
  cases n
  rfl

@[simp] lemma statementsBelow_succ :
    statementsBelow (some (i + 1)) (n :: ns) = statementsBelow (some i) ns := by
  cases n
  rfl

lemma run_statements_nil (s : Sheet) : statements [] s = .ok ((), s) := rfl

lemma run_statements_cons (h : statement n s = .ok ((), s')) :
    statements (n :: ns) s = statements ns s' := run_then h _

lemma run_sourceFile (h : e.kind = .sourceFile) (s : Sheet) :
    statement e s = statements e.children s := by
  cases e
  subst h
  rfl

lemma run_comment (h : e.Has .comment [] (some text)) (s : Sheet) :
    statement e s = line text s := by
  rw [h.eq]
  rfl

lemma run_error (h : e.Has .error [] (some text)) (s : Sheet) :
    statement e s = line ("# error: " ++ text) s := by
  rw [h.eq]
  rfl

lemma run_exit (h : e.Has .exitStatement ns value) (s : Sheet) :
    statement e s = line "exit" s := by
  rw [h.eq]
  rfl

lemma run_break (h : e.Has .breakStatement ns value) (s : Sheet) :
    statement e s = line "break" s := by
  rw [h.eq]
  rfl

lemma run_cont (h : e.Has .contStatement ns value) (s : Sheet) :
    statement e s = line "cont" s := by
  rw [h.eq]
  rfl

lemma run_symbolDeclaration (h : e.Has .symbolDeclaration [x] none)
    (hx : expression x = .ok name) (s : Sheet) : statement e s = line ("sym " ++ name) s := by
  rw [h.eq]
  exact run_lift hx _ s

lemma run_import (h : e.Has .importStatement [n] none) (hn : expression n = .ok text)
    (s : Sheet) : statement e s = line ("import " ++ text) s := by
  rw [h.eq]
  exact run_lift hn _ s

lemma run_return (h : e.Has .returnStatement [n] none) (hn : expression n = .ok text)
    (s : Sheet) : statement e s = line ("ret " ++ text) s := by
  rw [h.eq]
  exact run_lift hn _ s

lemma run_assignment (h : e.Has .assignment [x, n] value) (hx : expression x = .ok name)
    (hn : expression n = .ok text) (s : Sheet) :
    statement e s = line (name ++ " = " ++ text ++ value.getD "") s := by
  rw [h.eq]
  exact (run_lift hx _ s).trans (run_lift hn _ s)

lemma run_expressionStatement (h : e.Has .expressionStatement [n] value)
    (hn : expression n = .ok text) (s : Sheet) :
    statement e s = line (text ++ value.getD "") s := by
  rw [h.eq]
  exact run_lift hn _ s

lemma run_ifStatement (h : e.Has .ifStatement (n :: body :: ns) none)
    (hn : expression n = .ok text) (s : Sheet) :
    statement e s
      = (block ("if " ++ text) (statements body.children) >>= fun _ => clauses 0 ns) s := by
  rw [h.eq]
  cases n
  cases body
  exact run_lift hn _ s

lemma run_whileLoop (h : e.Has .whileLoop [n, body] none) (hn : expression n = .ok text)
    (s : Sheet) : statement e s = block ("while " ++ text) (statements body.children) s := by
  rw [h.eq]
  cases n
  cases body
  exact run_lift hn _ s

lemma run_forLoop (h : e.Has .forLoop [x, n, body] none) (hx : expression x = .ok name)
    (hn : expression n = .ok text) (s : Sheet) :
    statement e s
      = block ("for " ++ name ++ " in " ++ text) (statements body.children) s := by
  rw [h.eq]
  cases x
  cases n
  cases body
  exact (run_lift hx _ s).trans (run_lift hn _ s)

lemma run_functionDefinition {ss rs : List String}
    (h : e.Has .functionDefinition [x, pos, key, body] none) (hx : expression x = .ok name)
    (hpos : texts pos.children = .ok ss) (hkey : texts key.children = .ok rs) (s : Sheet) :
    statement e s = block ("fn " ++ name ++ "(" ++ Text.join ", " (ss ++ rs) ++ ")")
      (statements body.children) s := by
  rw [h.eq]
  cases x
  cases pos
  cases key
  cases body
  exact (run_lift hx _ s).trans ((run_lift hpos _ s).trans (run_lift hkey _ s))

lemma run_clauses_nil (s : Sheet) : clauses 0 [] s = .ok ((), s) := rfl

lemma run_elseif (h : e.Has .elseifClause [n, body] none) (hn : expression n = .ok text)
    (s : Sheet) :
    clauses 0 (e :: ns) s
      = (attached ("elseif " ++ text) (statements body.children) >>= fun _ => clauses 0 ns) s := by
  rw [h.eq]
  cases n
  cases body
  exact run_lift hn _ s

lemma run_else (h : e.Has .elseClause [body] none) (s : Sheet) :
    clauses 0 (e :: ns) s
      = (attached "else" (statements body.children) >>= fun _ => clauses 0 ns) s := by
  rw [h.eq]
  cases body
  rfl

end

end StpLang
