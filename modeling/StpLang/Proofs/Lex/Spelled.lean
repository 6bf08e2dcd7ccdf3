import StpLang.Proofs.Grammar.Settle

/-!
How tokens are spelled.

A token that was cut from a text is spelled as its kind demands, wherever it
stands, and so are the tokens in its snippets. A snippet ends with its only end
mark.

* `Spells` says which spellings and pieces belong to a kind, `Parts` how the
  pieces of a string follow each other.
* `SnippetSpelled` says this of a snippet that may hold further ones.
* `Lexes.spelled`: the tokens of a text are spelled so.
-/

namespace StpLang

open Lexer

/-! ### Spellings -/

/-- The digits of a number, perhaps with a fraction. -/
inductive Numeral : List Char → Prop
  | whole {w : List Char} (hne : w ≠ []) (hw : ∀ x ∈ w, x.isDigit = true) : Numeral w
  | fraction {w v : List Char} (hne : w ≠ []) (hw : ∀ x ∈ w, x.isDigit = true) (hve : v ≠ [])
      (hv : ∀ x ∈ v, x.isDigit = true) : Numeral (w ++ '.' :: v)

/-- The pieces of a string and the characters that spell them, up to and
including the closing quote. A run of characters ends where it must, and an
escape takes as many digits as it can. -/
inductive Parts (P : List Token → Prop) : List (Segment Token) → List Char → Prop
  | close : Parts P [] ['"']
  | chars {seg : Segment Token} {segs : List (Segment Token)} {k : List Char}
      (form : seg.form = .chars) (hne : seg.text.toList ≠ [])
      (plain : ∀ x ∈ seg.text.toList, Scan.isPlain x = true)
      (ends : ∀ x ∈ k.head?, Scan.isPlain x = false) (more : Parts P segs k) :
      Parts P (seg :: segs) (seg.text.toList ++ k)
  | escape {seg : Segment Token} {segs : List (Segment Token)} {x : Char} {k : List Char}
      (form : seg.form = .escape) (text : seg.text.toList = ['\\', x])
      (hx : Scan.isSimpleEscape x = true) (more : Parts P segs k) :
      Parts P (seg :: segs) (seg.text.toList ++ k)
  | unicode {seg : Segment Token} {segs : List (Segment Token)} {w k : List Char}
      (form : seg.form = .unicode (String.ofList w)) (text : seg.text.toList = '\\' :: 'x' :: w)
      (digits : Scan.escapeDigits? (Scan.hexLength (w ++ k)) = some w.length)
      (more : Parts P segs k) : Parts P (seg :: segs) (seg.text.toList ++ k)
  | octal {seg : Segment Token} {segs : List (Segment Token)} {w k : List Char}
      (form : seg.form = .octal) (text : seg.text.toList = '\\' :: w) (hw : w.length = 3)
      (digits : ∀ x ∈ w, Scan.isOctalDigit x = true) (more : Parts P segs k) :
      Parts P (seg :: segs) (seg.text.toList ++ k)
  | snippet {seg : Segment Token} {segs : List (Segment Token)} {ts : List Token}
      {w k : List Char} (form : seg.form = .snippet ts)
      (text : seg.text.toList = '\\' :: '{' :: w) (tokens : P ts) (more : Parts P segs k) :
      Parts P (seg :: segs) (seg.text.toList ++ k)

/-- The spellings and the pieces of the tokens of each kind. -/
inductive Spells (P : List Token → Prop) : TokenKind → String → List (Segment Token) → Prop
  | lineEnd : Spells P .newline "\n" []
  | comment {w : List Char} (hw : ∀ x ∈ w, x ≠ '\n')
      (trimmed : Text.trimEnd (· == '\r') ('#' :: w) = '#' :: w) :
      Spells P .comment (String.ofList ('#' :: w)) []
  | word {kind : TokenKind} {x : Char} {w : List Char} (hx : Scan.startsWord x = true)
      (hw : ∀ y ∈ w, Scan.continuesWord y = true)
      (hk : kind = .ofWord (String.ofList (x :: w))
        ∨ (kind = .mod ∧ String.ofList (x :: w) = "mod")) :
      Spells P kind (String.ofList (x :: w)) []
  | number {w : List Char} (hw : Numeral w) : Spells P .number (String.ofList w) []
  | string {value : String} {segs : List (Segment Token)} {w : List Char}
      (hv : value.toList = '"' :: w) (h : Parts P segs w) : Spells P .string value segs
  | operator {kind : TokenKind} {value : String} (h : (value, kind) ∈ TokenKind.operators) :
      Spells P kind value []

/-- The tokens of a snippet in which `allowance - 1` further ones may be entered
are spelled right, and end with their only end mark. -/
def SnippetSpelled : (allowance : Nat) → List Token → Prop
  | 0 => fun _ => False
  | allowance + 1 => fun ts => ∃ us e, ts = us ++ [e] ∧ e.kind = .eof
    ∧ ∀ u ∈ us, u.kind ≠ .eof ∧ Spells (SnippetSpelled allowance) u.kind u.value u.segments

/-- The token is spelled right, and so are those in its snippets. -/
abbrev Token.Spelled (allowance : Nat) (t : Token) : Prop :=
  Spells (SnippetSpelled allowance) t.kind t.value t.segments

/-- The tokens of a snippet are spelled right. -/
lemma Parts.tokens {P : List Token → Prop} {segs : List (Segment Token)} {w : List Char}
    (h : Parts P segs w) {seg : Segment Token} (hs : seg ∈ segs) {ts : List Token}
    (hf : seg.form = .snippet ts) : P ts := by
  induction h with
  | close => cases hs
  | chars form _ _ _ _ ih | escape form _ _ _ ih | unicode form _ _ _ ih
  | octal form _ _ _ _ ih =>
    rcases List.mem_cons.mp hs with rfl | hs
    · rw [form] at hf
      cases hf
    · exact ih hs
  | snippet form _ tokens _ ih =>
    rcases List.mem_cons.mp hs with rfl | hs
    · rw [form] at hf
      cases hf
      exact tokens
    · exact ih hs

/-- The kinds of words. -/
def TokenKind.words : List TokenKind := .identifier :: .mod :: keywords.map (·.2)

lemma TokenKind.mem_words {kind : TokenKind} {text : String}
    (h : kind = .ofWord text ∨ (kind = .mod ∧ text = "mod")) : kind ∈ words := by
  rcases h with rfl | ⟨rfl, -⟩
  · rcases ofWord_or text with h | h
    · rw [h]
      exact List.mem_cons_self
    · exact List.mem_cons_of_mem _ (List.mem_cons_of_mem _ (List.mem_map.mpr ⟨_, h, rfl⟩))
  · decide

/-- A word is none of the other tokens. -/
lemma wordKind_mem (past : List Char) (text : String) (rest : List Char) :
    wordKind past text rest ∈ TokenKind.words := by
  refine TokenKind.mem_words (show _ = TokenKind.ofWord text ∨ _ from ?_)
  unfold wordKind
  split
  · rename_i h
    simp only [Bool.and_eq_true, beq_iff_eq] at h
    exact .inr ⟨rfl, h.1.1⟩
  · exact .inl rfl

lemma Spells.parts {P : List Token → Prop} {value : String} {segs : List (Segment Token)}
    (h : Spells P .string value segs) : ∃ w, value.toList = '"' :: w ∧ Parts P segs w := by
  have hop : ∀ o ∈ TokenKind.operators, o.2 ≠ .string := by decide
  cases h with
  | word _ _ hk => exact absurd (TokenKind.mem_words hk) (by decide)
  | string hv h => exact ⟨_, hv, h⟩
  | operator h => exact absurd rfl (hop _ h)

lemma Spells.comment_inv {P : List Token → Prop} {value : String} {segs : List (Segment Token)}
    (h : Spells P .comment value segs) : ∃ w, value = String.ofList ('#' :: w)
      ∧ (∀ x ∈ w, x ≠ '\n') ∧ Text.trimEnd (· == '\r') ('#' :: w) = '#' :: w := by
  have hop : ∀ o ∈ TokenKind.operators, o.2 ≠ .comment := by decide
  cases h with
  | comment hw trimmed => exact ⟨_, rfl, hw, trimmed⟩
  | word _ _ hk => exact absurd (TokenKind.mem_words hk) (by decide)
  | operator h => exact absurd rfl (hop _ h)

/-- Only strings have pieces. -/
lemma Spells.segments_eq_nil {P : List Token → Prop} {kind : TokenKind} {value : String}
    {segs : List (Segment Token)} (h : Spells P kind value segs) (hk : kind ≠ .string) :
    segs = [] := by
  cases h with
  | string => exact absurd rfl hk
  | _ => rfl

/-- The word `mod` is also a name. -/
lemma Spells.identifier_of_mod {P : List Token → Prop} {value : String}
    {segs : List (Segment Token)} (h : Spells P .mod value segs) :
    Spells P .identifier value segs := by
  have hop : ∀ o ∈ TokenKind.operators, o.2 ≠ .mod := by decide
  have hkey : ∀ o ∈ TokenKind.keywords, o.2 ≠ .mod := by decide
  cases h with
  | @word _ x w hx hw hk =>
    rcases hk with hk | ⟨-, hk⟩
    · rcases TokenKind.ofWord_or (String.ofList (x :: w)) with h | h
      · rw [h] at hk
        cases hk
      · exact absurd hk.symm (hkey _ h)
    · exact .word hx hw (.inl (by rw [hk]; rfl))
  | operator h => exact absurd rfl (hop _ h)

/-- A kind with one spelling is spelled so. -/
lemma Spells.spelling {P : List Token → Prop} {kind : TokenKind} {value s : String}
    {segs : List (Segment Token)} (h : Spells P kind value segs)
    (hs : kind.spelling? = some s) : value = s := by
  have hop : ∀ o ∈ TokenKind.operators, o.2.spelling? = some o.1 := by decide
  have hkey : ∀ o ∈ TokenKind.keywords, o.2.spelling? = some o.1 := by decide
  cases h with
  | @word _ x w hx hw hk =>
    rcases hk with rfl | ⟨rfl, hk⟩
    · rcases TokenKind.ofWord_or (String.ofList (x :: w)) with h | h
      · rw [h] at hs
        cases hs
      · exact Option.some.inj ((hkey _ h).symm.trans hs)
    · exact hk.trans (Option.some.inj hs)
  | operator h => exact Option.some.inj ((hop _ h).symm.trans hs)
  | _ => cases hs

/-! ### Scanned text -/

lemma Numeral.mem {w : List Char} (h : Numeral w) {x : Char} (hx : x ∈ w) :
    x.isDigit = true ∨ x = '.' := by
  cases h with
  | whole _ hw => exact .inl (hw x hx)
  | fraction _ hw _ hv =>
    rcases List.mem_append.mp hx with hx | hx
    · exact .inl (hw x hx)
    · exact (List.mem_cons.mp hx).symm.imp_left (hv x)

namespace Scan

lemma forall_mem_takeWhile {α : Type} (p : α → Bool) (l : List α) :
    ∀ x ∈ l.takeWhile p, p x = true :=
  fun x hx => List.all_eq_true.mp List.all_takeWhile x hx

lemma head?_dropWhile {α : Type} (p : α → Bool) (l : List α) :
    ∀ x ∈ (l.dropWhile p).head?, p x = false := by
  intro x hx
  have h := List.head?_dropWhile_not p l
  rw [Option.mem_def.mp hx] at h
  simpa using h

lemma take_takeWhile {α : Type} (p : α → Bool) (l : List α) :
    l.take (l.takeWhile p).length = l.takeWhile p :=
  (List.prefix_iff_eq_take.mp (List.takeWhile_prefix p)).symm

lemma drop_takeWhile {α : Type} (p : α → Bool) (l : List α) :
    l.drop (l.takeWhile p).length = l.dropWhile p := by
  have h : (l.takeWhile p ++ l.dropWhile p).drop (l.takeWhile p).length = l.dropWhile p :=
    List.drop_left
  rwa [List.takeWhile_append_dropWhile] at h

/-- A first character that stays keeps the rest in its place. -/
lemma trimEnd_cons {p : Char → Bool} {x : Char} (hx : p x = false) (w : List Char) :
    Text.trimEnd p (x :: w) = x :: Text.trimEnd p w := by
  rw [Text.trimEnd, Text.trimEnd, List.reverse_cons, List.dropWhile_append]
  split
  · rename_i h
    rw [List.isEmpty_iff] at h
    simp [h, hx]
  · simp

/-- Nothing is cut off where the last character stays. -/
lemma trimEnd_eq_self {p : Char → Bool} {w : List Char} (h : ∀ x ∈ w.getLast?, p x = false) :
    Text.trimEnd p w = w := by
  rw [← List.head?_reverse] at h
  have hdrop : w.reverse.dropWhile p = w.reverse := by
    cases hr : w.reverse with
    | nil => rfl
    | cons x v =>
      rw [hr] at h
      exact List.dropWhile_cons_of_neg (by simp [h x rfl])
  rw [Text.trimEnd, hdrop, List.reverse_reverse]

lemma getLast?_trimEnd (p : Char → Bool) (w : List Char) :
    ∀ x ∈ (Text.trimEnd p w).getLast?, p x = false := by
  rw [Text.trimEnd, List.getLast?_reverse]
  exact head?_dropWhile p _

lemma trimEnd_trimEnd (p : Char → Bool) (w : List Char) :
    Text.trimEnd p (Text.trimEnd p w) = Text.trimEnd p w :=
  trimEnd_eq_self (getLast?_trimEnd p w)

/-- The digits of an escape are counted up to eight. -/
lemma hexLength_eq (cs : List Char) : hexLength cs = min 8 (cs.takeWhile isHexDigit).length := by
  rw [hexLength, ← List.take_takeWhile, List.length_take]

/-- Behind the closing quote no digits are counted. -/
lemma hexLength_quote (w k : List Char) : hexLength (w ++ '"' :: k) = hexLength (w ++ ['"']) := by
  have hq : ∀ k : List Char, (w ++ '"' :: k).takeWhile isHexDigit = w.takeWhile isHexDigit := by
    intro k
    rw [List.takeWhile_append]
    split
    · rename_i hall
      rw [List.takeWhile_cons_of_neg (by decide), List.append_nil]
      exact ((List.takeWhile_prefix _).eq_of_length hall).symm
    · rfl
  rw [hexLength_eq, hexLength_eq, hq k, hq []]

lemma isPlain_of_isHexDigit {x : Char} (h : isHexDigit x = true) : isPlain x = true := by
  have hne : x ≠ '"' ∧ x ≠ '\\' := by
    constructor <;> rintro rfl <;> revert h <;> decide
  simp [isPlain, hne]

lemma isHexDigit_of_isOctalDigit {x : Char} (h : isOctalDigit x = true) : isHexDigit x = true := by
  simp only [isOctalDigit, Bool.and_eq_true, decide_eq_true_eq] at h
  have hdigit : x.isDigit = true := by
    simp only [Char.isDigit, Bool.and_eq_true, decide_eq_true_eq]
    exact ⟨h.1, Char.le_trans h.2 (by decide)⟩
  simp [isHexDigit, hdigit]

/-- The digits of a unicode escape. -/
lemma hex_take {k : List Char} {n : Nat} (h : escapeDigits? (hexLength k) = some n) :
    ∀ x ∈ k.take n, isHexDigit x = true := by
  have hle : n ≤ hexLength k := by simpa using List.find?_some h
  have hprefix : (k.take 8).takeWhile isHexDigit <+: k :=
    (List.takeWhile_prefix _).trans (List.take_prefix _ _)
  have heq : (k.take 8).takeWhile isHexDigit = k.take (hexLength k) :=
    List.prefix_iff_eq_take.mp hprefix
  intro x hx
  refine forall_mem_takeWhile isHexDigit (k.take 8) x ?_
  rw [heq]
  exact (List.take_prefix_take_left hle).mem hx

/-- The digits of an octal escape. -/
lemma octal_take {k : List Char} (h : octalLength k = 3) :
    (k.take 3).length = 3 ∧ ∀ x ∈ k.take 3, isOctalDigit x = true := by
  have hle := (List.takeWhile_sublist (l := k.take 3) isOctalDigit).length_le
  have hlen : (k.take 3).length = 3 := by
    change octalLength k ≤ _ at hle
    rw [List.length_take] at hle ⊢
    omega
  have hall : (k.take 3).takeWhile isOctalDigit = k.take 3 :=
    (List.takeWhile_prefix _).eq_of_length (h.trans hlen.symm)
  exact ⟨hlen, hall ▸ forall_mem_takeWhile _ _⟩

lemma numeral_take {x : Char} {k : List Char} (hx : x.isDigit = true) :
    Numeral ((x :: k).take (numberLength (x :: k))) := by
  have hdigits := forall_mem_takeWhile Char.isDigit (x :: k)
  have hne : (x :: k).takeWhile Char.isDigit ≠ [] := by simp [hx]
  have hlen : digitsLength (x :: k) = ((x :: k).takeWhile Char.isDigit).length := rfl
  obtain ⟨r, hr⟩ := List.takeWhile_prefix (p := Char.isDigit) (l := x :: k)
  generalize (x :: k).takeWhile Char.isDigit = w at *
  rw [← hr]
  rw [← hr] at hlen
  have hsplit : (w ++ r).take (numberLength (w ++ r)) = w ++ r.take (fractionLength r) := by
    rw [numberLength, hlen, List.drop_left, List.take_length_add_append]
  rw [hsplit]
  cases r with
  | nil => simpa using Numeral.whole hne hdigits
  | cons y r =>
    by_cases hy : y = '.'
    · subst hy
      rw [fractionLength]
      split
      · simpa using Numeral.whole hne hdigits
      · rename_i hzero
        rw [Nat.add_comm, List.take_succ_cons, digitsLength, take_takeWhile]
        refine .fraction hne hdigits (fun hnil => hzero ?_) (forall_mem_takeWhile _ _)
        rw [digitsLength, hnil]
        rfl
    · have hzero : fractionLength (y :: r) = 0 := by
        unfold fractionLength
        split
        · rename_i heq
          exact absurd (List.cons.inj heq).1 hy
        · rfl
      rw [hzero]
      simpa using Numeral.whole hne hdigits

end Scan

/-! ### What is cut off is spelled right -/

/-- The tokens of every snippet are spelled as `P` demands. -/
def SnippetRel.Spells (R : SnippetRel) (P : List Token → Prop) : Prop :=
  ∀ ⦃c ts d⦄, R c ts d → P ts

section

variable {R : SnippetRel} {P : List Token → Prop} {c d : Cursor} {segs : List (Segment Token)}

lemma Parts.quote {k : List Char} (h : Parts P segs k) : ∃ w, k = w ++ ['"'] := by
  induction h with
  | close => exact ⟨[], rfl⟩
  | chars _ _ _ _ _ ih | escape _ _ _ _ ih | unicode _ _ _ _ ih | octal _ _ _ _ _ ih
  | snippet _ _ _ _ ih =>
    obtain ⟨w, rfl⟩ := ih
    exact ⟨_ ++ w, (List.append_assoc ..).symm⟩

lemma Cursor.Ahead.rest_eq (h : c.Ahead d) : c.rest = (c.textTo d).toList ++ d.rest := by
  obtain ⟨n, hn, rfl⟩ := h
  rw [textTo_forward_take hn, String.toList_ofList, rest_forward, List.take_append_drop]

/-- The spelling of what has been passed over. -/
lemma Cursor.textTo_eq {w k : List Char} (h : c.rest = w ++ k) :
    (c.textTo (c.forward w.length)).toList = w := by
  rw [textTo_forward h, String.toList_ofList]

/-- An escape is spelled as the text that it takes. -/
lemma Escape.parts (hR : R.Moves) (hP : R.Spells P) {form : SegmentForm Token} {w k : List Char}
    (h : Escape R c form d) (hw : Parts P segs w) (hrest : d.rest = w ++ k) :
    Parts P (.between form c d :: segs) ((c.textTo d).toList ++ w) := by
  cases h with
  | @simple x k' h hx =>
    have htext : (c.textTo (c.forward 2)).toList = ['\\', x] :=
      Cursor.textTo_eq (w := ['\\', x]) h
    exact .escape rfl htext hx hw
  | @unicode k' n h hn =>
    have hle : n ≤ Scan.hexLength k' := by simpa using List.find?_some hn
    have hhex : Scan.hexLength k' ≤ (k'.take 8).length := (List.takeWhile_sublist _).length_le
    rw [List.length_take] at hhex
    have hlen : (k'.take n).length = n := by rw [List.length_take]; omega
    have hsplit : c.rest = ('\\' :: 'x' :: k'.take n) ++ k'.drop n := by
      rw [h, List.cons_append, List.cons_append, List.take_append_drop]
    have htext : (c.textTo (c.forward (n + 2))).toList = '\\' :: 'x' :: k'.take n := by
      have := Cursor.textTo_eq hsplit
      rwa [List.length_cons, List.length_cons, hlen] at this
    have hdrop : k'.drop n = w ++ k := by
      rw [← hrest, Cursor.rest_forward, h]
      rfl
    obtain ⟨v, rfl⟩ := hw.quote
    have hk : (k'.take n ++ v) ++ '"' :: k = k' := by
      rw [← List.take_append_drop n k', hdrop]
      simp [hlen]
    refine .unicode rfl htext ?_ hw
    rw [hlen, ← List.append_assoc, ← Scan.hexLength_quote _ k, hk]
    exact hn
  | @octal k' h hn =>
    obtain ⟨hlen, hall⟩ := Scan.octal_take hn
    have htext : (c.textTo (c.forward 4)).toList = '\\' :: k'.take 3 := by
      have hsplit : c.rest = ('\\' :: k'.take 3) ++ k'.drop 3 := by
        rw [h, List.cons_append, List.take_append_drop]
      have := Cursor.textTo_eq hsplit
      rwa [List.length_cons, hlen] at this
    exact .octal rfl htext hlen hall hw
  | @snippet k' ts _ h hs =>
    have hle := (hR hs).pos_le
    rw [Cursor.pos_forward (by rw [h]; simp)] at hle
    obtain ⟨m, hm⟩ : ∃ m, d.pos - c.pos = m + 2 := ⟨d.pos - c.pos - 2, by omega⟩
    have htext : (c.textTo d).toList = '\\' :: '{' :: k'.take m := by
      rw [Cursor.textTo, String.toList_ofList, h, hm]
      rfl
    exact .snippet rfl htext (hP hs) hw

/-- The pieces of a string are spelled as the text that they take. -/
lemma Pieces.parts (hR : R.Moves) (hP : R.Spells P) (h : Pieces R c segs d) :
    ∃ w, Parts P segs w ∧ c.rest = w ++ d.rest := by
  induction h with
  | @close c k h =>
    refine ⟨['"'], .close, ?_⟩
    rw [Cursor.rest_forward, h]
    rfl
  | @plain c d segs x k h hx hs ih =>
    obtain ⟨w, hw, hrest⟩ := ih
    have hahead := (before_plain h hx).ahead
    have htext : (c.textTo (c.forward (c.rest.takeWhile Scan.isPlain).length)).toList
        = c.rest.takeWhile Scan.isPlain :=
      Cursor.textTo_eq List.takeWhile_append_dropWhile.symm
    refine ⟨_, .chars rfl ?_ ?_ ?_ hw, ?_⟩
    · rw [Segment.between, htext, h]
      simp [hx]
    · rw [Segment.between, htext]
      exact Scan.forall_mem_takeWhile _ _
    · have hdrop : w ++ d.rest = c.rest.dropWhile Scan.isPlain := by
        rw [← hrest, Cursor.rest_forward, Scan.drop_takeWhile]
      obtain ⟨v, rfl⟩ := hw.quote
      have hends := Scan.head?_dropWhile Scan.isPlain c.rest
      rw [← hdrop] at hends
      cases v <;> simpa using hends
    · rw [List.append_assoc, ← hrest]
      exact hahead.rest_eq
  | @escape c d e form segs h hs ih =>
    obtain ⟨w, hw, hrest⟩ := ih
    refine ⟨_, h.parts hR hP hw hrest, ?_⟩
    rw [List.append_assoc, ← hrest]
    exact (h.before hR).ahead.rest_eq

/-- A token is spelled as its kind demands. -/
lemma Lexeme.spells (hR : R.Moves) (hP : R.Spells P) {kind : TokenKind} {value : String}
    (h : Lexeme R c kind value segs d) : Spells P kind value segs := by
  cases h with
  | lineEnd => exact .lineEnd
  | @comment k h =>
    have hline := Scan.forall_mem_takeWhile (· != '\n') k
    have htake : c.rest.take (Scan.lineLength c.rest) = '#' :: k.takeWhile (· != '\n') := by
      rw [h, Scan.lineLength, Scan.take_takeWhile, List.takeWhile_cons_of_pos (by decide)]
    rw [htake, Scan.trimEnd_cons (by decide)]
    obtain ⟨v, hv⟩ := trimEnd_append (· == '\r') (k.takeWhile (· != '\n'))
    refine .comment (fun x hx => ?_) ?_
    · have := hline x (by rw [← hv]; exact List.mem_append_left _ hx)
      simpa using this
    · rw [Scan.trimEnd_cons (by decide), Scan.trimEnd_trimEnd]
  | @word x k h hx =>
    have hword := Scan.continuesWord_of_startsWord hx
    have htake : c.rest.take (Scan.wordLength c.rest) = x :: k.takeWhile Scan.continuesWord := by
      rw [h, Scan.wordLength, Scan.take_takeWhile, List.takeWhile_cons_of_pos hword]
    rw [htake]
    refine .word hx (Scan.forall_mem_takeWhile _ _) ?_
    unfold wordKind
    split
    · rename_i hmod
      simp only [Bool.and_eq_true, beq_iff_eq] at hmod
      exact .inr ⟨rfl, hmod.1.1⟩
    · exact .inl rfl
  | @number x k h hx =>
    rw [h]
    exact .number (Scan.numeral_take hx)
  | @string k segs d h hs =>
    obtain ⟨w, hw, hrest⟩ := hs.parts hR hP
    have hq : c.Ahead (c.forward 1) := Cursor.ahead_forward (by rw [h]; simp)
    have hsplit := (hq.trans (hs.before hR).ahead).rest_eq
    have hvalue : (c.textTo d).toList ++ d.rest = ('"' :: w) ++ d.rest := by
      rw [← hsplit, List.cons_append, ← hrest, Cursor.rest_forward, h]
      rfl
    exact .string (List.append_cancel_right hvalue) hw
  | operator h => exact .operator (Scan.operator?_inv h).1

/-- A string begins with a quote, and its pieces reach up to its end. -/
lemma Lexeme.string_inv {value : String}
    (h : Lexeme R c .string value segs d) :
    ∃ k, c.rest = '"' :: k ∧ Pieces R (c.forward 1) segs d ∧ value = c.textTo d := by
  have hop : ∀ o ∈ TokenKind.operators, o.2 ≠ .string := by decide
  generalize hk : TokenKind.string = kind at h
  cases h with
  | string h hs => exact ⟨_, h, hs, rfl⟩
  | word => exact absurd (hk ▸ wordKind_mem _ _ _) (by decide)
  | operator h => exact absurd hk.symm (hop _ (Scan.operator?_inv h).1)
  | _ => cases hk

/-- A token that ends its line is a line end, or it reaches up to the next one. -/
lemma Lexeme.endsLine_inv {kind : TokenKind} {value : String}
    (h : Lexeme R c kind value segs d) (hk : kind.endsLine = true) :
    c.rest.head? = some '\n' ∨ ∀ x ∈ d.rest.head?, x = '\n' := by
  have hop : ∀ o ∈ TokenKind.operators, o.2.endsLine = false := by decide
  cases h with
  | lineEnd h => exact .inl (by rw [h]; rfl)
  | comment =>
    refine .inr fun x hx => ?_
    rw [Cursor.rest_forward, Scan.lineLength, Scan.drop_takeWhile] at hx
    simpa using Scan.head?_dropWhile _ _ x hx
  | word =>
    rw [(wordKind_plain _ _ _).2.2.2.2] at hk
    cases hk
  | operator h =>
    rw [hop _ (Scan.operator?_inv h).1] at hk
    cases hk
  | _ => cases hk

/-- The tokens of a snippet are spelled right, and end with their only end
mark. -/
lemma SnippetTokens.spelled (hR : R.Moves) {n : Nat} (hP : R.Spells (SnippetSpelled n))
    {groups ts : List Token} {spaced : Bool} (h : SnippetTokens R groups spaced c ts d) :
    SnippetSpelled (n + 1) ts := by
  induction h with
  | @close spaced c d k hd h => exact ⟨[], _, rfl, rfl, by simp⟩
  | @more groups spaced c d e t ts h hs ih =>
    obtain ⟨us, e, rfl, he, hus⟩ := ih
    obtain ⟨h⟩ := h
    exact ⟨_ :: us, e, rfl, he, List.forall_mem_cons.mpr ⟨⟨h.plain.1, h.spells hR hP⟩, hus⟩⟩

lemma SnippetAt.spelled (allowance : Nat) :
    SnippetRel.Spells (SnippetAt allowance) (SnippetSpelled allowance) := by
  induction allowance with
  | zero => exact fun _ _ _ h => h.elim
  | succ n ih => exact fun _ _ _ h => SnippetTokens.spelled (SnippetAt.moves n) ih h

/-- The tokens of a text are spelled right. -/
theorem Lexes.spelled {limit : Int} {s t : Lexer} {us : List Token} (h : Lexes limit s us t) :
    ∀ u ∈ us, u.Spelled limit.toNat := by
  induction h with
  | nil => simp
  | cons h hu _ ih =>
    obtain ⟨hlex⟩ := (textToken_cut h hu).1
    exact List.forall_mem_cons.mpr
      ⟨hlex.spells (SnippetAt.moves _) (SnippetAt.spelled _), ih⟩

end

/-- Preparing the tokens for the grammar keeps their spelling. -/
lemma spelled_settle {n : Nat} {ts : List Token} (h : ∀ t ∈ ts, t.Spelled n) (depth : Nat)
    (last : Option TokenKind) : ∀ t ∈ (Parser.settle depth last ts).1, t.Spelled n := by
  induction ts generalizing depth last with
  | nil => simp [Parser.settle]
  | cons t ts ih =>
    rw [List.forall_mem_cons] at h
    rw [settle_cons]
    cases hk : keptToken? depth last t with
    | none => exact ih h.2 _ _
    | some u =>
      refine List.forall_mem_cons.mpr ⟨?_, ih h.2 _ _⟩
      rcases keptToken?_some hk with rfl | ⟨hmod, rfl⟩
      · exact h.1
      · exact Spells.identifier_of_mod (by rw [← hmod]; exact h.1)

end StpLang
