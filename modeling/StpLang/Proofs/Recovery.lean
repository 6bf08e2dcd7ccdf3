import StpLang.Program
import StpLang.Proofs.Grammar.Clean
import StpLang.Proofs.Grammar.SoundStatement
import StpLang.Proofs.Lex.Whole
import StpLang.Proofs.Parse.Shown

/-!
Reading with and without recovery.

A reader that recovers from errors gives a tree of every text. A strict reader
either gives the same tree or fails, and then with an error that the other one
records.

* `recovery_total`: recovery always ends, with a program.
* `parse_either`: both readers give one tree, or the strict one fails.
* `strict_recovery_agree` compares the two readers.
-/

namespace StpLang

open Parse Grammar

/-- The category of the error that ends a reading, if one does. -/
def failure? : Except Error Tree → Option Category
  | .error e => some e.category
  | .ok _ => none

/-! ### Recovery ends -/

lemma program_ok (limit : Int) (n loops : Nat) (s : Parser) :
    ∃ root t, program (level limit false n) loops s = .ok root t
      ∧ root.kind = .sourceFile := by
  have hstrict : (level limit false n).strict = false := (showsBelow_level limit n).strict
  rw [run_program, hstrict]
  obtain ⟨xs, t, hr, he⟩ := exists_rounds limit n loops none
    { s with trace := .parsingStarted s.count false :: s.trace }
  rw [bind_ok ((statements_iff_rounds (Nat.le_refl _)).mpr ⟨hr, he⟩), run_current]
  exact ⟨_, t, rfl, rfl⟩

/-- The reader before some tokens. -/
def startAt (tokens : List Token) (trace : List Event) : Parser :=
  { Parser.ofTokens tokens with trace }

/-- The tree or the error that reading a program ends with. -/
def outcome : EStateM.Result Error Parser Node → Except Error Tree
  | .ok root s => .ok (.ofNode root s.errors s.trivia)
  | .error e _ => .error e

lemma readTokens_result (limit : Int) (strict : Bool) (tokens : List Token)
    (trace : List Event) :
    (readTokens limit strict tokens trace).result
      = outcome (program (level limit strict limit.toNat) 0 (startAt tokens trace)) := by
  unfold readTokens levelAt
  rw [Int.sub_zero]
  dsimp only
  generalize hs : program (level limit strict limit.toNat) 0 (startAt tokens trace) = r
  change program (level limit strict limit.toNat) 0 { Parser.ofTokens tokens with trace } = r at hs
  rw [hs]
  cases r <;> rfl

lemma readTokens_ok (limit : Int) (tokens : List Token) (trace : List Event) :
    ∃ t, (readTokens limit false tokens trace).result = .ok t := by
  obtain ⟨root, t, h, -⟩ := program_ok limit limit.toNat 0 (startAt tokens trace)
  rw [readTokens_result, h]
  exact ⟨_, rfl⟩

lemma readFrom_ok (limit : Int) (c : Cursor) :
    ∃ t, (readFrom limit false c).result = .ok t := by
  unfold readFrom
  dsimp only
  cases (Lexed.run limit c).fault with
  | none => exact readTokens_ok limit _ _
  | some fault =>
    obtain ⟨t, ht⟩ := readTokens_ok limit (Lexed.run limit c).tokens
      (.lexingStopped fault.error :: (Lexed.run limit c).trace)
    dsimp only
    rw [if_neg Bool.false_ne_true, ht]
    exact ⟨_, rfl⟩

section

variable {source : String} {limit : Int} {fault : LexFault}

/-- A text that is cut into tokens up to its end is read from these. -/
lemma parse_of_cut (strict : Bool) (h : (Lexed.run limit (.ofText source)).fault = none) :
    parse source strict limit
      = (readTokens limit strict (Lexed.run limit (.ofText source)).tokens
        (Lexed.run limit (.ofText source)).trace).result := by
  unfold parse read readFrom
  dsimp only
  rw [h]

/-- A strict reader fails where the lexer stops. -/
lemma parse_strict_of_fault (h : (Lexed.run limit (.ofText source)).fault = some fault) :
    parse source true limit = .error fault.error := by
  unfold parse read readFrom
  dsimp only
  rw [h]
  rfl

/-- A recovering reader keeps the tokens before the place where the lexer stops, and what
follows makes a node of its own. -/
lemma parse_of_fault (h : (Lexed.run limit (.ofText source)).fault = some fault) :
    ∃ trace t,
      (readTokens limit false (Lexed.run limit (.ofText source)).tokens trace).result = .ok t
        ∧ parse source false limit = .ok (t.withUnreadable fault source.toList.length) := by
  have hlength : (Cursor.ofText source).past.length + (Cursor.ofText source).rest.length
      = source.toList.length := by simp [Cursor.ofText, Cursor.atOffset]
  obtain ⟨t, ht⟩ := readTokens_ok limit (Lexed.run limit (.ofText source)).tokens
    (.lexingStopped fault.error :: (Lexed.run limit (.ofText source)).trace)
  refine ⟨_, t, ht, ?_⟩
  unfold parse read readFrom
  dsimp only
  rw [h, ← hlength]
  dsimp only
  rw [if_neg Bool.false_ne_true, ht]
  rfl

end

/-- Recovery is total. Any tokens make a program. Every round of a loop over
statements that does not end the loop passes over a token, and the loop makes
rounds until it ends. So every text has a tree. -/
theorem recovery_total (limit : Int) :
    (∀ tokens, ∃ root s, program (levelAt limit false 0) 0 (.ofTokens tokens) = .ok root s
      ∧ root.kind = .sourceFile)
    ∧ (∀ n loops closer s, LoopEnds closer s
      ∨ ∃ xs t, Round false (statement (level limit false n) loops) closer s xs t)
    ∧ (∀ n loops closer s xs t,
      Round false (statement (level limit false n) loops) closer s xs t →
        s.position < t.position)
    ∧ (∀ n loops closer s, ∃ xs t,
      statements false (statement (level limit false n) loops) closer s.rest.length s = .ok xs t
        ∧ Rounds false (statement (level limit false n) loops) closer s xs t
        ∧ LoopEnds closer t)
    ∧ ∀ source, ∃ t, parse source false limit = .ok t := by
  refine ⟨fun tokens => program_ok limit _ 0 _, fun n loops closer s => ?_,
    fun n loops closer s xs t h => h.position_lt, fun n loops closer s => ?_,
    fun source => readFrom_ok limit _⟩
  · by_cases he : LoopEnds closer s
    · exact .inl he
    · exact .inr (exists_round _ he)
  · obtain ⟨xs, t, hr, he⟩ := exists_rounds limit n loops closer s
    exact ⟨xs, t, (statements_iff_rounds (Nat.le_refl _)).mpr ⟨hr, he⟩, hr, he⟩

/-! ### Strict reading -/

/-- The strict reader of some tokens gives the tree of the other one, which has
no errors then, or it fails with the first of its errors. -/
lemma readTokens_strict {limit : Int} {tokens : List Token} {trace : List Event} {t : Tree}
    (h : (readTokens limit false tokens trace).result = .ok t) :
    ((readTokens limit true tokens trace).result = .ok t ∧ t.errors = [])
      ∨ ∃ e, (readTokens limit true tokens trace).result = .error e
        ∧ t.errors.head? = some e := by
  have hp := paired_program .parting limit limit.toNat 0 (.refl (startAt tokens trace))
  obtain ⟨root, s, hs, -⟩ := program_ok limit limit.toNat 0 (startAt tokens trace)
  change Paired _ _ _ _ (program (level limit true _) 0 _) (program (level limit false _) 0 _) at hp
  rw [readTokens_result, hs] at h
  rw [readTokens_result]
  rw [hs] at hp
  cases h
  generalize program (level limit true limit.toNat) 0 (startAt tokens trace) = r at hp ⊢
  cases hp with
  | @ok _ s' _ ht =>
    obtain ⟨ts, ts', es, cs, hm, hm', -, -, he⟩ := ht
    obtain rfl : es = [] := he.resolve_left (by decide)
    have herr : s'.errors = s.errors := hm.errors.trans hm'.errors.symm
    have htri : s'.trivia = s.trivia := hm.trivia.trans hm'.trivia.symm
    refine .inl ⟨?_, hm'.errors⟩
    show Except.ok (Tree.ofNode root s'.errors s'.trivia) = _
    rw [herr, htri]
  | @parted e _ _ _ ht =>
    obtain ⟨es, hes⟩ := ht
    refine .inr ⟨e, rfl, ?_⟩
    show s.errors.head? = some e
    rw [show s.errors = _ from hes]
    rfl

/-- Either both readers give one tree without errors, or the strict one fails and the
other one has errors to report. -/
lemma parse_either (source : String) (limit : Int) :
    (∃ t, (∀ strict, parse source strict limit = .ok t) ∧ t.errors = [])
      ∨ ∃ e t, parse source true limit = .error e ∧ parse source false limit = .ok t
        ∧ t.errors ≠ [] := by
  cases hf : (Lexed.run limit (.ofText source)).fault with
  | some fault =>
    obtain ⟨_, t, -, ht⟩ := parse_of_fault hf
    exact .inr ⟨_, _, parse_strict_of_fault hf, ht, by simp [Tree.withUnreadable]⟩
  | none =>
    obtain ⟨t, ht⟩ := readTokens_ok limit (Lexed.run limit (.ofText source)).tokens
      (Lexed.run limit (.ofText source)).trace
    have hrecover := (parse_of_cut false hf).trans ht
    rcases readTokens_strict ht with ⟨hs, hnil⟩ | ⟨e, hs, hhead⟩
    · refine .inl ⟨t, fun strict => ?_, hnil⟩
      cases strict with
      | true => exact (parse_of_cut true hf).trans hs
      | false => exact hrecover
    · refine .inr ⟨e, t, (parse_of_cut true hf).trans hs, hrecover, fun hnil => ?_⟩
      rw [hnil] at hhead
      cases hhead

/-- A tree of the tokens of a text that was read strictly holds no error. -/
lemma readTokens_clean {limit : Int} {tokens : List Token} {trace : List Event} {t : Tree}
    {lo hi : Nat} (hp : ∀ u ∈ tokens, u.Placed lo hi)
    (h : (readTokens limit true tokens trace).result = .ok t) : t.root.hasError = false := by
  rw [readTokens_result] at h
  cases hs : program (level limit true limit.toNat) 0 (startAt tokens trace) with
  | error e s => rw [hs] at h; cases h
  | ok root s =>
    rw [hs] at h
    cases h
    obtain ⟨ts, hts, hd, hroot⟩ := derives_of_program hs
    have hrest : (Parser.settle 0 none tokens).1 = ts ++ s.rest := hts.rest
    have hplaced := placed_settle hp 0 none
    rw [hrest, List.forall_mem_append] at hplaced
    have hclean := hd.clean hplaced.1 trivial
    show root.hasError = false
    rw [hroot, Node.hasError_spanning]
    simpa using hclean

/-- Errors are recorded when the tree of the tokens of a text holds one. -/
lemma readTokens_errors_iff {limit : Int} {tokens : List Token} {trace : List Event} {t : Tree}
    {lo hi : Nat} (hp : ∀ u ∈ tokens, u.Placed lo hi)
    (h : (readTokens limit false tokens trace).result = .ok t) :
    t.errors ≠ [] ↔ t.root.hasError = true := by
  constructor
  · intro he
    obtain ⟨root, s, hs, -⟩ := program_ok limit limit.toNat 0 (startAt tokens trace)
    rw [readTokens_result, hs] at h
    cases h
    exact ((shows_program limit _ 0).run hs).resolve_left he
  · intro he hnil
    rcases readTokens_strict h with ⟨hstrict, -⟩ | ⟨e, -, hhead⟩
    · rw [readTokens_clean hp hstrict] at he
      cases he
    · rw [hnil] at hhead
      cases hhead

/-- Strict and recovering readers agree. The strict one succeeds when the other
one records no error, and then with the same tree. It fails with the last error
when the text cannot be cut into tokens, and otherwise with the first one.
Errors are recorded exactly when the tree shows one. -/
theorem strict_recovery_agree (source : String) (limit : Int) :
    ∃ t, parse source false limit = .ok t
      ∧ ((∃ u, parse source true limit = .ok u) ↔ t.errors = [])
      ∧ (∀ u, parse source true limit = .ok u → u = t)
      ∧ (∀ e, parse source true limit = .error e →
        (tokenize source limit = .error e ∧ t.errors.getLast? = some e)
          ∨ ((∃ tokens, tokenize source limit = .ok tokens) ∧ t.errors.head? = some e))
      ∧ (t.errors ≠ [] ↔ t.root.hasError = true) := by
  have hplaced := placed_lexFrom limit { cursor := .ofText source }
  rw [← run_eq_lexFrom] at hplaced
  unfold parse read readFrom tokenize tokenizeFrom Lexed.toExcept
  dsimp only
  generalize Lexed.run limit (.ofText source) = lexed at hplaced ⊢
  cases lexed.fault with
  | none =>
    dsimp only
    obtain ⟨t, ht⟩ := readTokens_ok limit lexed.tokens lexed.trace
    refine ⟨t, ht, ?_⟩
    rcases readTokens_strict ht with ⟨hs, he⟩ | ⟨e, hs, he⟩
    · rw [hs]
      refine ⟨⟨fun _ => he, fun _ => ⟨t, rfl⟩⟩, fun u hu => ?_, fun e he => ?_,
        readTokens_errors_iff hplaced ht⟩
      · cases hu
        rfl
      · cases he
    · rw [hs]
      refine ⟨⟨fun ⟨u, hu⟩ => ?_, fun hnil => ?_⟩, fun u hu => ?_, fun e' he' => ?_,
        readTokens_errors_iff hplaced ht⟩
      · cases hu
      · rw [hnil] at he
        cases he
      · cases hu
      · cases he'
        exact .inr ⟨⟨_, rfl⟩, he⟩
  | some fault =>
    dsimp only
    obtain ⟨t, ht⟩ := readTokens_ok limit lexed.tokens
      (.lexingStopped fault.error :: lexed.trace)
    rw [if_neg Bool.false_ne_true, if_pos rfl, ht]
    refine ⟨_, rfl, ⟨fun ⟨u, hu⟩ => ?_, fun hnil => ?_⟩, fun u hu => ?_, fun e he => ?_, ?_⟩
    · cases hu
    · simp [Tree.withUnreadable] at hnil
    · cases hu
    · cases he
      exact .inl ⟨rfl, by simp [Tree.withUnreadable]⟩
    · refine ⟨fun _ => ?_, fun _ => by simp [Tree.withUnreadable]⟩
      -- the text that could not be read stands last
      refine Node.hasError_of_mem (List.mem_append_right _ (List.mem_singleton_self _)) ?_
      rw [unreadable, Node.hasError_spanning]
      rfl

end StpLang
