import StpLang.Proofs.Layout
import StpLang.Proofs.RoundTrip.Program

/-!
Every well-formed program is accepted.

A tree that is well-formed has a text, and the strict reader makes a tree with the
same structure from this text, whatever the limit is above the number of levels of
the tree.

* `exists_program` writes the statements of a program, and `Recounts.accepted`
  accepts their text.
* `parse_render` is the result for trees.
-/

namespace StpLang

open Lexer Source

section

variable {limit : Int} {e : Node} {ns : List Node} {text : String} {t : Tree}

/-- The tokens form the statements of a program. -/
def ProgramOf (ns : List Node) (us : List Token) : Prop :=
  ∃ ns', Node.allAgree false ns ns' = true ∧ ∀ {a : Nat} {k : List Token},
    Node.toll ns ≤ a + 1 → headKind k = .eof → Derives a (.statements 0 false) us k ns'

/-- The lines of statements and the line end behind the last of them. -/
lemma StatementOf.program {us vs : List Token} {x : Token} (h : StatementOf 0 e us)
    (hs : LinesOf 0 ns vs) (hx : x.kind = .newline) : ProgramOf (e :: ns) (us ++ vs ++ [x]) := by
  obtain ⟨e', hsame, h⟩ := h
  obtain ⟨ns', hsames, hmore⟩ := hs.statements
  refine ⟨e' :: ns', ?_, fun {a k} ha hk => ?_⟩
  · rw [Node.allAgree_cons, Bool.and_eq_true]
    exact ⟨hsame, hsames⟩
  · rw [Node.toll_cons] at ha
    have hcalm : Calm ([x] ++ k) := calm_cons hx hk (by decide)
    have hend : Derives a (.statements 0 false) [x] k [] :=
      .statementsSeparator (by rw [hx]; rfl) (.statementsEnd (.inl hk))
    have hlines := hmore (by omega) hcalm hend
    rw [List.append_nil] at hlines
    rw [List.append_assoc]
    refine .statementsMore (h (by omega) ?_) hlines
    rw [List.append_assoc]
    exact hs.calm hcalm

/-- The statements of a program have a text, which is read as these statements. -/
lemma exists_program (h : ∀ c ∈ ns, Writes limit 0 c) :
    ∃ s, statements ns {} = .ok ((), s)
      ∧ Recounts limit Fresh (fun _ => True) s.output.toList (ProgramOf ns) := by
  cases ns with
  | nil =>
    refine ⟨{}, run_statements_nil {}, recounts_nil.mono ?_⟩
    rintro _ rfl
    exact ⟨[], Node.allAgree_nil _, fun _ hk => .statementsEnd (.inl hk)⟩
  | cons e ns =>
    rw [List.forall_mem_cons] at h
    obtain ⟨s, w, hrun, hext, hrec⟩ := h.1 {}
    obtain ⟨s', d, hruns, hexts, hends, hrecs⟩ := writesAll h.2 s
    have htext : s'.output.toList = w ++ d ++ ['\n'] := by
      have hchars := s'.chars_output
      rw [(hext.trans hexts).chars] at hchars
      exact (List.cons.inj hchars).2
    refine ⟨s', (run_statements_cons hrun).trans hruns, ?_⟩
    rw [htext]
    have hlines := hrec.append hrecs (fun _ _ _ => trivial) fun k hk => hends k hk
    refine (hlines.append (recounts_lineEnd limit (S := Anywhere)) (fun _ _ _ => trivial)
      fun _ _ => rfl).mono ?_
    rintro _ ⟨_, _, rfl, ⟨us, vs, rfl, hus, hvs⟩, x, rfl, hx⟩
    exact hus.program hvs hx

/-- A text that is read as the statements of a program is accepted. -/
lemma Recounts.accepted (h : Recounts limit Fresh (fun _ => True) text.toList (ProgramOf ns))
    (hn : Node.toll ns ≤ limit.toNat + 1) :
    ∃ ts us x ns', Accepted text limit ts us x ns' ∧ Node.allAgree false ns ns' = true := by
  have hrest : (Cursor.ofText text).rest = text.toList ++ [] := (List.append_nil _).symm
  obtain ⟨us, t, ⟨ns', hsame, hderives⟩, hlined, hcursor⟩ :=
    h ⟨.ofText text, true, none⟩ [] rfl hrest trivial
  obtain ⟨ts, y, hlex, hyc, -, hsettle⟩ := hlined.lexes { cursor := .ofText text } rfl rfl rfl
  have hend : y.cursor.rest = [] := by
    rw [hyc, hcursor, Cursor.rest_forward, hrest, List.drop_left]
  obtain ⟨x, -, -, hx, htokens⟩ :=
    tokenize_of_lexes hlex (by rw [Cursor.rest_forward, hend, List.drop_nil])
  refine ⟨ts, us, x, ns', ⟨htokens, hlex.ne_eof, hx, ?_, hderives hn hx⟩, hsame⟩
  rw [hsettle]

/-- Where the tree of a well-formed program demands no more than the limit, its text
is accepted. -/
lemma Tree.WellFormed.exists_parse (h : t.WellFormed) (hn : t.root.demand ≤ limit.toNat) :
    ∃ text u, Target.stp.render t = .ok text ∧ parse text true limit = .ok u
      ∧ t.root.sameStructure u.root = true := by
  have hsound : t.root.Sound := fun n hn => ⟨h.formed n hn, h.spelt n hn⟩
  have hroot := hsound.has_none h.root rfl
  have hwrites : ∀ c ∈ t.root.children, Writes limit 0 c := fun c hc =>
    (hsound.child hc).writes (hsound.entries (.inl h.root) c hc)
      (Nat.le_trans (Node.demand_le_of_mem hc) hn)
      (hroot.controlled h.controlled (by decide) (by decide) c hc)
  obtain ⟨s, hrun, hrec⟩ := exists_program hwrites
  rw [show t.root.demand = Node.toll t.root.children - 1 from hroot.demand_eq] at hn
  obtain ⟨ts, us, x, ns', haccepted, hsame⟩ := hrec.accepted (by omega)
  exact ⟨s.output, _, render_of_statements h.root hrun,
    parse_strict_iff.mpr ⟨ts, us, x, ns', haccepted, rfl⟩, hroot.same rfl hsame⟩

end

/-- **Every well-formed program is accepted.** The tree of a well-formed program has
a text. Under any limit of at least the number of levels of the tree, the strict
reader accepts this text, and the tree that it makes has the same structure. -/
theorem parse_render {t : Tree} (h : t.WellFormed) :
    ∃ text, Target.stp.render t = .ok text ∧ ∀ limit : Int, (t.root.height : Int) ≤ limit →
      ∃ u, parse text true limit = .ok u ∧ t.root.sameStructure u.root = true := by
  have hread {limit : Int} (hlimit : (t.root.height : Int) ≤ limit) : ∃ text u,
      Target.stp.render t = .ok text ∧ parse text true limit = .ok u
        ∧ t.root.sameStructure u.root = true :=
    h.exists_parse (Nat.le_trans t.root.demand_le_height (by omega))
  obtain ⟨text, -, hrender, -⟩ := hread (Int.le_refl _)
  refine ⟨text, hrender, fun limit hlimit => ?_⟩
  obtain ⟨text', u, hrender', hu⟩ := hread hlimit
  obtain rfl := Except.ok.inj (hrender.symm.trans hrender')
  exact ⟨u, hu⟩

/-- A loop whose condition is a matrix with a name `mod`, a sign, an operator and a
string, made without a text. -/
def matrixLoop : Tree :=
  let word kind text : Node := { kind, value := some text }
  let made (kind : Kind) children : Node :=
    { kind, children, fields := kind.labels children.length }
  let name text : Node :=
    { kind := .memberAccess, value := some text, children := [word .identifier text] }
  let negated := made .unary [word .operator "-", name "x"]
  let string := made .string [word .chars "a", made .snippet [name "y"]]
  let power := made .binary [word .number "3", word .operator "^", string]
  let product := made .binary [made .bracketed [power], word .operator "mod", word .number "2.5"]
  let rows := [made .matrixRow [name "mod", negated], made .lastRow [product]]
  let body := made .block [word .comment "# again", word .contStatement "cont"]
  .ofNode (made .sourceFile [made .whileLoop [made .matrix rows, body]])

/-- The loop is written on four lines and read again. -/
theorem parse_render_matrixLoop :
    matrixLoop.WellFormed ∧ ∃ text u, Target.stp.render matrixLoop = .ok text
      ∧ text = "while [mod -x; (3 ^ \"a\\\x7by\\\x7d\") mod 2.5] \x7b\n    # again\n    cont\n\x7d\n"
      ∧ parse text true 11 = .ok u ∧ matrixLoop.root.sameStructure u.root = true := by
  have hformed : matrixLoop.WellFormed := by decide +kernel
  have htext : (Target.stp.render matrixLoop).toOption
      = some "while [mod -x; (3 ^ \"a\\\x7by\\\x7d\") mod 2.5] \x7b\n    # again\n    cont\n\x7d\n" := by
    decide +kernel
  obtain ⟨text, hrender, hread⟩ := parse_render hformed
  obtain ⟨u, hu, hsame⟩ := hread 11 (by decide +kernel)
  rw [hrender] at htext
  exact ⟨hformed, text, u, hrender, Option.some.inj htext, hu, hsame⟩

end StpLang
