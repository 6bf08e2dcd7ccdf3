import StpLang.Proofs.Grammar.Settle

/-!
The lexemes of a text.

The lexemes of a program are the texts of its tokens, where a string stands for
its pieces and a snippet for its lexemes, without what only lays the program out:
line ends, the semicolons between statements, the commas between the elements of
a matrix, a comma that opens a list of parameters, and comments in groups and
snippets.

* `lexemes` reads the lexemes off the kinds and the words of tokens; `Token.item`
  gives these of a token.
* `lexemes_settle`: preparing the tokens for the grammar keeps the lexemes.
* `Relaid` says that tokens are laid out anew, and `Relaid.lexemes_eq` that this
  keeps the lexemes.
-/

namespace StpLang

/-! ### Lexemes -/

/-- What counts of a token: its kind, where `mod` counts as a name, and its
words. -/
structure Item where
  kind : TokenKind
  words : List String
deriving DecidableEq, Repr

/-- The kinds of tokens that lay a program out, behind an opening parenthesis or
not, where the innermost open group is given. -/
def laysOut (innermost : Option TokenKind) (behindParen : Bool) : TokenKind → Bool
  | .eof | .newline => true
  | .semicolon => innermost != some .leftBracket
  | .comma => innermost == some .leftBracket || behindParen
  | _ => false

/-- The groups that are open behind a token. -/
def groupsPast (groups : List TokenKind) (kind : TokenKind) : List TokenKind :=
  if kind.opensGroup then kind :: groups
  else if kind.closesGroup then groups.tail
  else groups

/-- The words of tokens within the open `groups`, without those that lay the
program out and without the comments in groups and snippets. -/
def lexemes (inSnippet : Bool) :
    (groups : List TokenKind) → (behindParen : Bool) → List Item → List String
  | _, _, [] => []
  | groups, behindParen, x :: xs =>
    if x.kind == .comment && (inSnippet || !groups.isEmpty) then
      lexemes inSnippet groups behindParen xs
    else
      (if laysOut groups.head? behindParen x.kind then [] else x.words)
        ++ lexemes inSnippet (groupsPast groups x.kind) (x.kind == .leftParen) xs

/-- The kind of a token, where `mod` counts as a name. -/
def TokenKind.plain (kind : TokenKind) : TokenKind := if kind = .mod then .identifier else kind

mutual

/-- What counts of a token; the words of a string are those of its pieces. -/
def Token.item : Token → Item
  | ⟨kind, value, _, _, _, _, _, segments⟩ =>
    ⟨kind.plain, if kind = .string then pieceWords segments else [value]⟩

/-- The words of the pieces of a string. -/
def pieceWords : List (Segment Token) → List String
  | [] => []
  | ⟨form, text, _, _, _, _⟩ :: segs => formWords text form ++ pieceWords segs

/-- The words of a piece: its spelling, or the lexemes of a snippet. -/
def formWords (text : String) : SegmentForm Token → List String
  | .snippet ts => lexemes true [] false (Token.items ts)
  | _ => [text]

/-- What counts of some tokens. -/
def Token.items : List Token → List Item
  | [] => []
  | t :: ts => t.item :: Token.items ts

end

/-- The lexemes of the tokens of a text. -/
def Token.lexemes (ts : List Token) : List String := StpLang.lexemes false [] false (Token.items ts)

section

variable {t u : Token} {ts us : List Token} {seg : Segment Token} {segs : List (Segment Token)}

@[simp] lemma Token.items_nil : Token.items [] = [] := by rw [Token.items]

@[simp] lemma Token.items_cons : Token.items (t :: ts) = t.item :: Token.items ts := by
  rw [Token.items]

@[simp] lemma Token.items_append : Token.items (ts ++ us) = Token.items ts ++ Token.items us := by
  induction ts with
  | nil => simp
  | cons t ts ih => simp [ih]

lemma Token.items_eq_map : Token.items ts = ts.map Token.item := by
  induction ts with
  | nil => simp
  | cons t ts ih => simp [ih]

@[simp] lemma Token.item_kind (t : Token) : t.item.kind = t.kind.plain := by
  cases t
  rw [Token.item]

lemma Token.item_words (h : t.kind ≠ .string) : t.item.words = [t.value] := by
  cases t
  rw [Token.item]
  exact if_neg h

lemma Token.item_string (h : t.kind = .string) : t.item = ⟨.string, pieceWords t.segments⟩ := by
  cases t
  rw [Token.item]
  cases h
  rfl

lemma pieceWords_cons :
    pieceWords (seg :: segs) = formWords seg.text seg.form ++ pieceWords segs := by
  cases seg
  rw [pieceWords]

lemma formWords_snippet (text : String) (ts : List Token) :
    formWords text (.snippet ts) = lexemes true [] false (Token.items ts) := by rw [formWords]

lemma formWords_plain {text : String} {form : SegmentForm Token}
    (h : ∀ ts, form ≠ .snippet ts) : formWords text form = [text] := by
  cases form with
  | snippet ts => exact absurd rfl (h ts)
  | _ =>
    rw [formWords]
    rintro ts ⟨⟩

/-- Only a `mod` counts as another kind. -/
lemma TokenKind.plain_eq {kind : TokenKind} (h : kind ≠ .mod) : kind.plain = kind := if_neg h

/-- The kinds with a role in the layout count as themselves. -/
lemma TokenKind.plain_or (kind : TokenKind) :
    kind.plain = kind ∨ (kind = .mod ∧ kind.plain = .identifier) := by
  by_cases h : kind = .mod
  · exact .inr ⟨h, if_pos h⟩
  · exact .inl (if_neg h)

lemma lexemes_nil (inSnippet : Bool) (groups : List TokenKind) (behindParen : Bool) :
    lexemes inSnippet groups behindParen [] = [] := by rw [lexemes]

lemma lexemes_cons (inSnippet : Bool) (groups : List TokenKind) (behindParen : Bool) (x : Item)
    (xs : List Item) :
    lexemes inSnippet groups behindParen (x :: xs)
      = if x.kind == .comment && (inSnippet || !groups.isEmpty) then
          lexemes inSnippet groups behindParen xs
        else
          (if laysOut groups.head? behindParen x.kind then [] else x.words)
            ++ lexemes inSnippet (groupsPast groups x.kind) (x.kind == .leftParen) xs := by
  rw [lexemes]

/-- An end mark is no lexeme. -/
lemma lexemes_append_eof {e : Token} (he : e.kind = .eof) (inSnippet : Bool)
    (groups : List TokenKind) (behindParen : Bool) (xs : List Item) :
    lexemes inSnippet groups behindParen (xs ++ [e.item])
      = lexemes inSnippet groups behindParen xs := by
  induction xs generalizing groups behindParen with
  | nil =>
    rw [List.nil_append, lexemes_cons, lexemes_nil, lexemes_nil, Token.item_kind, he]
    rfl
  | cons x xs ih => rw [List.cons_append, lexemes_cons, lexemes_cons, ih, ih]

/-! ### Preparing the tokens -/

/-- A name instead of a `mod` counts the same. -/
lemma Token.item_of_mod (h : t.kind = .mod) :
    Token.item { t with kind := .identifier } = t.item := by
  cases t
  cases h
  rw [Token.item, Token.item]
  rfl

/-- What is kept of a token counts the same. -/
lemma Token.item_kept {depth : Nat} {last : Option TokenKind}
    (h : keptToken? depth last t = some u) : u.item = t.item := by
  rcases keptToken?_some h with rfl | ⟨hk, rfl⟩
  · rfl
  · exact Token.item_of_mod hk

/-- As many groups are open as the preparation counts. -/
lemma length_groupsPast (groups : List TokenKind) (t : Token) :
    (groupsPast groups t.item.kind).length = depthAfter groups.length t := by
  rw [Token.item_kind]
  unfold groupsPast depthAfter
  rcases t.kind.plain_or with h | ⟨h, h'⟩
  · rw [h]
    split
    · rfl
    split
    · exact List.length_tail
    · rfl
  · rw [h', h]
    rfl

/-- Preparing the tokens for the grammar keeps the lexemes. -/
lemma lexemes_settle (inSnippet : Bool) (groups : List TokenKind) (behindParen : Bool)
    (last : Option TokenKind) (ts : List Token) :
    lexemes inSnippet groups behindParen (Token.items (Parser.settle groups.length last ts).1)
      = lexemes inSnippet groups behindParen (Token.items ts) := by
  induction ts generalizing groups behindParen last with
  | nil => rfl
  | cons t ts ih =>
    rw [settle_cons, Token.items_cons, lexemes_cons]
    cases h : keptToken? groups.length last t with
    | none =>
      -- only comments within groups are set aside, and these are no lexemes
      have hk := keptToken?_none h
      have hdepth : groups.isEmpty = false := by
        cases groups with
        | nil => simp [keptToken?, hk] at h
        | cons => rfl
      rw [Token.item_kind, hk, hdepth]
      exact (ih groups behindParen last).trans (by simp [TokenKind.plain])
    | some u =>
      rw [Token.items_cons, lexemes_cons, Token.item_kept h, ← length_groupsPast, ih]
      split
      · rename_i hc
        rw [Bool.and_eq_true, beq_iff_eq] at hc
        have hg : groupsPast groups t.item.kind = groups := by
          rw [hc.1]
          rfl
        rw [hg, ih]
      · rfl

/-! ### Single tokens -/

lemma TokenKind.isInner_plain (kind : TokenKind) : kind.plain.isInner = kind.isInner := by
  rcases kind.plain_or with h | ⟨h, h'⟩
  · rw [h]
  · rw [h', h]
    rfl

variable {inSnippet behindParen : Bool} {groups : List TokenKind} {xs : List Item}

/-- The lexemes of a token that neither opens nor closes a group, and of what
follows. -/
lemma lexemes_inner (ht : t.kind.isInner = true) :
    lexemes inSnippet groups behindParen (t.item :: xs)
      = if t.item.kind == .comment && (inSnippet || !groups.isEmpty) then
          lexemes inSnippet groups behindParen xs
        else
          (if laysOut groups.head? behindParen t.item.kind then [] else t.item.words)
            ++ lexemes inSnippet groups false xs := by
  obtain ⟨ho, hc, -⟩ := (TokenKind.isInner_iff _).mp ((TokenKind.isInner_plain t.kind).trans ht)
  have hparen : (t.item.kind == .leftParen) = false := by
    rw [Token.item_kind, beq_eq_false_iff_ne]
    intro hk
    rw [hk] at ho
    cases ho
  rw [lexemes_cons, hparen, groupsPast, Token.item_kind, ho, hc]
  rfl

/-- A token that lays the program out is no lexeme. -/
lemma lexemes_layout (ht : t.kind.isInner = true) (hk : t.kind ≠ .comment)
    (hl : laysOut groups.head? behindParen t.kind = true) :
    lexemes inSnippet groups behindParen (t.item :: xs) = lexemes inSnippet groups false xs := by
  have hplain : t.kind.plain = t.kind := by
    refine TokenKind.plain_eq fun hm => ?_
    rw [hm] at hl
    cases hl
  rw [lexemes_inner ht, Token.item_kind, hplain, hl, beq_false_of_ne hk]
  rfl

/-- Outside of groups the marks that end a statement lay the program out. -/
lemma TokenKind.laysOut_of_isSeparator {kind : TokenKind} (h : kind.isSeparator = true) :
    kind ≠ .comment ∧ laysOut none false kind = true := by
  cases kind with
  | newline | semicolon => exact ⟨by decide, rfl⟩
  | _ => cases h

lemma lexemes_open (ho : t.kind.opensGroup = true) :
    lexemes inSnippet groups behindParen (t.item :: xs)
      = t.item.words ++ lexemes inSnippet (t.kind :: groups) (t.kind == .leftParen) xs := by
  rw [lexemes_cons, Token.item_kind]
  cases hk : t.kind with
  | leftParen | leftBracket => rfl
  | _ =>
    rw [hk] at ho
    cases ho

lemma lexemes_close (hc : t.kind.closesGroup = true) :
    lexemes inSnippet groups behindParen (t.item :: xs)
      = t.item.words ++ lexemes inSnippet groups.tail false xs := by
  rw [lexemes_cons, Token.item_kind]
  cases hk : t.kind with
  | rightParen | rightBracket => rfl
  | _ =>
    rw [hk] at hc
    cases hc

end

/-! ### Laying tokens out anew -/

/-- The tokens `us` within the group that `innermost` opens are laid out anew as
`xs`: outside of groups line ends come and go and semicolons between statements
go, within brackets commas go, and so does the comma that opens a list of
parameters. -/
inductive Relaid : (innermost : Option TokenKind) → (us xs : List Token) → Prop
  | nil {i : Option TokenKind} : Relaid i [] []
  | keep {i : Option TokenKind} {t : Token} {us xs : List Token} (ht : t.kind.isInner = true)
      (h : Relaid i us xs) : Relaid i (t :: us) (t :: xs)
  | group {i : Option TokenKind} {o c : Token} {us vs xs ys : List Token}
      (ho : o.kind.opensGroup = true) (hc : o.kind.closer? = some c.kind)
      (h : Relaid (some o.kind) us xs) (hs : Relaid i vs ys) :
      Relaid i (o :: (us ++ c :: vs)) (o :: (xs ++ c :: ys))
  | comma {t : Token} {us xs : List Token} (ht : t.kind = .comma)
      (h : Relaid (some .leftBracket) us xs) : Relaid (some .leftBracket) (t :: us) xs
  | leadingComma {i : Option TokenKind} {o t x c : Token} {us vs xs ys : List Token}
      (ho : o.kind = .leftParen) (ht : t.kind = .comma) (hx : x.kind = .identifier)
      (hc : c.kind = .rightParen) (h : Relaid (some .leftParen) us xs) (hs : Relaid i vs ys) :
      Relaid i (o :: t :: x :: (us ++ c :: vs)) (o :: x :: (xs ++ c :: ys))
  | separator {t : Token} {us xs : List Token} (ht : t.kind.isSeparator = true)
      (h : Relaid none us xs) : Relaid none (t :: us) xs
  | lineEnd {t : Token} {us xs : List Token} (ht : t.kind = .newline) (h : Relaid none us xs) :
      Relaid none us (t :: xs)

namespace Relaid

variable {i : Option TokenKind} {o c t : Token} {us vs xs ys : List Token}

lemma append (h : Relaid i us xs) (h' : Relaid i vs ys) : Relaid i (us ++ vs) (xs ++ ys) := by
  induction h with
  | nil => exact h'
  | keep ht _ ih => exact .keep ht (ih h')
  | group ho hc h _ _ ih =>
    rw [List.cons_append, List.append_assoc, List.cons_append, List.cons_append,
      List.append_assoc, List.cons_append]
    exact .group ho hc h (ih h')
  | comma ht _ ih => exact .comma ht (ih h')
  | leadingComma ho ht hx hc h _ _ ih =>
    simp only [List.cons_append, List.append_assoc]
    exact .leadingComma ho ht hx hc h (ih h')
  | separator ht _ ih => exact .separator ht (ih h')
  | lineEnd ht _ ih => exact .lineEnd ht (ih h')

/-- A token of a known kind stays. -/
lemma one {kind : TokenKind} (ht : t.kind = kind) (hk : kind.isInner = true)
    (h : Relaid i us xs) : Relaid i (t :: us) (t :: xs) := .keep (by rw [ht, hk]) h

/-- What is laid out anew still closes the groups that it opens. -/
lemma balanced (h : Relaid i us xs) : Balanced xs := by
  induction h with
  | nil => exact .nil
  | keep ht _ ih => exact .plain ht ih
  | group ho hc _ _ ih ihs => exact .group ho hc ih ihs
  | comma _ _ ih => exact ih
  | leadingComma ho _ hx hc _ _ ih ihs =>
    exact .group (by rw [ho]; rfl) (by rw [ho, hc]; rfl) (.one hx rfl ih) ihs
  | separator _ _ ih => exact ih
  | lineEnd ht _ ih => exact .one ht rfl ih

/-- Outside of groups the first token that is no separator stays. -/
lemma head (h : Relaid none (t :: us) xs) (ht : t.kind.isSeparator = false)
    (hxs : ∀ x ∈ xs, x.kind ≠ .newline) : ∃ ys, xs = t :: ys := by
  cases h with
  | keep | group | leadingComma => exact ⟨_, rfl⟩
  | separator h =>
    rw [ht] at h
    cases h
  | lineEnd h => exact absurd h (hxs _ List.mem_cons_self)

/-- **Laying tokens out anew keeps the lexemes**, whatever follows. -/
theorem lexemes_eq (h : Relaid i us xs) {inSnippet behindParen : Bool} {groups : List TokenKind}
    {rest rest' : List Item} (hg : groups.head? = i)
    (hb : i = some .leftParen ∨ behindParen = false)
    (hrest : ∀ b, i = some .leftParen ∨ b = false →
      lexemes inSnippet groups b rest = lexemes inSnippet groups b rest') :
    lexemes inSnippet groups behindParen (Token.items us ++ rest)
      = lexemes inSnippet groups behindParen (Token.items xs ++ rest') := by
  induction h generalizing groups behindParen rest rest' with
  | nil => exact hrest behindParen hb
  | @keep i t us xs ht _ ih =>
    rw [Token.items_cons, Token.items_cons, List.cons_append, List.cons_append,
      lexemes_inner ht, lexemes_inner ht, ih hg hb hrest, ih hg (.inr rfl) hrest]
  | @group i o c us vs xs ys ho hc _ _ ih ihs =>
    have hclose := (TokenKind.closesGroup_of_closer? ho hc).1
    have hin : some o.kind = some TokenKind.leftParen ∨ (o.kind == .leftParen) = false := by
      by_cases hk : o.kind = .leftParen
      · exact .inl (congrArg some hk)
      · exact .inr (beq_false_of_ne hk)
    simp only [Token.items_cons, Token.items_append, List.cons_append, List.append_assoc]
    rw [lexemes_open ho, lexemes_open ho, ih rfl hin]
    intro b _
    rw [lexemes_close hclose, lexemes_close hclose, List.tail_cons, ihs hg (.inr rfl) hrest]
  | @comma t us xs ht _ ih =>
    rw [Token.items_cons, List.cons_append, lexemes_layout (by rw [ht]; rfl) (by rw [ht]; decide)
      (by rw [hg, ht]; rfl)]
    obtain rfl : behindParen = false := hb.resolve_left (by decide)
    exact ih hg (.inr rfl) hrest
  | @leadingComma i o t x c us vs xs ys ho ht hx hc _ _ ih ihs =>
    have hopen : o.kind.opensGroup = true := by rw [ho]; rfl
    have hclose : c.kind.closesGroup = true := by rw [hc]; rfl
    have hinner : x.kind.isInner = true := by rw [hx]; rfl
    simp only [Token.items_cons, Token.items_append, List.cons_append, List.append_assoc]
    rw [lexemes_open hopen, lexemes_open hopen, ho,
      lexemes_layout (by rw [ht]; rfl) (by rw [ht]; decide) (by rw [ht]; rfl),
      lexemes_inner hinner, lexemes_inner hinner, Token.item_kind, hx]
    refine congrArg (fun ws => o.item.words ++ (x.item.words ++ ws))
      (ih rfl (.inr rfl) fun b _ => ?_)
    rw [lexemes_close hclose, lexemes_close hclose, List.tail_cons, ihs hg (.inr rfl) hrest]
  | @separator t us xs ht _ ih =>
    obtain rfl : behindParen = false := hb.resolve_left (by decide)
    obtain ⟨hk, hl⟩ := TokenKind.laysOut_of_isSeparator ht
    rw [Token.items_cons, List.cons_append,
      lexemes_layout (TokenKind.isInner_of_isSeparator ht) hk (by rw [hg, hl])]
    exact ih hg (.inr rfl) hrest
  | @lineEnd t us xs ht _ ih =>
    obtain rfl : behindParen = false := hb.resolve_left (by decide)
    rw [Token.items_cons, List.cons_append, lexemes_layout (by rw [ht]; rfl) (by rw [ht]; decide)
      (by rw [hg, ht]; rfl)]
    exact ih hg (.inr rfl) hrest

/-- The tokens of a text and its end mark, laid out anew once they are prepared. -/
lemma lexemes_text {e : Token} (h : Relaid none (Parser.settle 0 none us).1 xs)
    (he : e.kind = .eof) (inSnippet : Bool) :
    lexemes inSnippet [] false (Token.items xs)
      = lexemes inSnippet [] false (Token.items (us ++ [e])) := by
  have hsame : lexemes inSnippet [] false (Token.items (Parser.settle 0 none us).1 ++ [])
      = lexemes inSnippet [] false (Token.items xs ++ []) :=
    h.lexemes_eq rfl (.inr rfl) fun _ _ => rfl
  rw [List.append_nil, List.append_nil] at hsame
  rw [Token.items_append, Token.items_cons, Token.items_nil, lexemes_append_eof he, ← hsame]
  exact lexemes_settle inSnippet [] false none us

end Relaid

end StpLang
