import StpLang.Proofs.Node
import StpLang.Proofs.Span.Laid

/-!
Nodes in rows.

The nodes of a phrase follow each other in the text as its tokens do, each of
them frames its children, and a node that shows a text shows the text of its
range.

* `Node.Framed` says that a node frames its children and that they stand apart,
  `Node.Exact` that it names its place and shows its text, and `Node.Fits` says
  both of a whole subtree.
* `Row` says that nodes that fit follow each other between two offsets.
* `Row.fits` is the step: a node over a row fits.
* `Derives.row` follows this through the grammar of expressions.
-/

namespace StpLang

open Grammar

/-! ### Frames -/

/-- One node starts no later than another one and ends before it; only the two
lists of arguments share the range of their parentheses. -/
def Node.Apart (a b : Node) : Prop :=
  a.start ≤ b.start ∧ (a.stop ≤ b.start ∨ (a.kind = .positionalArgs ∧ b.kind = .keywordArgs
    ∧ a.start = b.start ∧ a.stop = b.stop))

/-- The range of the node lies in the text and holds those of its children, which
stand apart. -/
structure Node.Framed (length : Nat) (n : Node) : Prop where
  order : n.start ≤ n.stop
  inside : n.stop ≤ length
  holds : ∀ c ∈ n.children, n.start ≤ c.start ∧ c.stop ≤ n.stop
  apart : n.children.Pairwise Node.Apart

/-- The kinds of nodes that show the text of their range. -/
def Kind.showsText : Kind → Bool
  | .identifier | .number | .percentage | .operator | .comment | .breakStatement
  | .contStatement | .exitStatement | .chars | .escape | .unicodeEscape | .octalEscape
  | .hexDigits => true
  | _ => false

/-- The text between two offsets as a node of a kind shows it: a comment leaves
out the carriage returns at its end. -/
def shownText (cs : List Char) (kind : Kind) (start stop : Nat) : List Char :=
  if kind = .comment then Text.trimEnd (· == '\r') (Text.slice cs start stop)
  else Text.slice cs start stop

/-- The node names the line and the column of its start, and shows its text. -/
structure Node.Exact (cs : List Char) (n : Node) : Prop where
  line : n.line = Text.lineAt cs n.start
  col : n.col = Text.colAt cs n.start
  text : n.kind.showsText = true →
    n.value = some (String.ofList (shownText cs n.kind n.start n.stop))

/-- Every node of the subtree is framed and exact. -/
def Node.Fits (cs : List Char) (n : Node) : Prop :=
  ∀ m ∈ n.walk, m.Framed cs.length ∧ m.Exact cs

/-- The place names its line and its column. -/
structure Place.Named (cs : List Char) (p : Place) : Prop where
  line : p.line = Text.lineAt cs p.start
  col : p.col = Text.colAt cs p.start

section

variable {cs : List Char} {n m : Node} {ns ms : List Node} {lo mid hi : Nat} {t : Token}
  {ts us : List Token}

lemma Node.fits_iff :
    n.Fits cs ↔ (n.Framed cs.length ∧ n.Exact cs) ∧ ∀ c ∈ n.children, c.Fits cs :=
  n.forall_mem_walk

lemma Node.Fits.framed (h : n.Fits cs) : n.Framed cs.length := (Node.fits_iff.mp h).1.1

lemma Node.Fits.named (h : n.Fits cs) : n.place.Named cs :=
  ⟨(Node.fits_iff.mp h).1.2.line, (Node.fits_iff.mp h).1.2.col⟩

lemma Token.Sits.named (h : t.Sits cs) : t.place.Named cs :=
  ⟨h.stands.place.line, h.stands.place.col⟩

/-! ### Rows -/

/-- Nodes that fit follow each other between two offsets; the two lists of
arguments stand side by side. -/
inductive Row (cs : List Char) : (lo : Nat) → List Node → (hi : Nat) → Prop
  | nil {lo hi : Nat} (h : lo ≤ hi) : Row cs lo [] hi
  | cons {lo hi : Nat} {n : Node} {ns : List Node} (order : lo ≤ n.start) (fits : n.Fits cs)
      (more : Row cs n.stop ns hi) : Row cs lo (n :: ns) hi
  | pair {lo hi : Nat} {p q : Node} {ns : List Node} (order : lo ≤ p.start)
      (hp : p.kind = .positionalArgs) (hq : q.kind = .keywordArgs) (start : p.start = q.start)
      (stop : p.stop = q.stop) (first : p.Fits cs) (second : q.Fits cs)
      (more : Row cs p.stop ns hi) : Row cs lo (p :: q :: ns) hi

namespace Row

lemma le (h : Row cs lo ns hi) : lo ≤ hi := by
  induction h with
  | nil h => exact h
  | cons order fits _ ih =>
    have := fits.framed.order
    omega
  | pair order _ _ _ _ first _ _ ih =>
    have := first.framed.order
    omega

lemma from_le (h : Row cs lo ns hi) {lo' : Nat} (hlo : lo' ≤ lo) : Row cs lo' ns hi := by
  cases h with
  | nil h => exact .nil (by omega)
  | cons order fits more => exact .cons (by omega) fits more
  | pair order hp hq start stop first second more =>
    exact .pair (by omega) hp hq start stop first second more

lemma append (h : Row cs lo ns mid) (h' : Row cs mid ms hi) : Row cs lo (ns ++ ms) hi := by
  induction h with
  | nil h => exact h'.from_le h
  | cons order fits _ ih => exact .cons order fits (ih h')
  | pair order hp hq start stop first second _ ih =>
    exact .pair order hp hq start stop first second (ih h')

lemma to_le (h : Row cs lo ns mid) (hhi : mid ≤ hi) : Row cs lo ns hi := by
  have := h.append (.nil hhi)
  rwa [List.append_nil] at this

lemma singleton_iff : Row cs lo [n] hi ↔ lo ≤ n.start ∧ n.Fits cs ∧ n.stop ≤ hi := by
  constructor
  · rintro (_ | ⟨order, fits, more⟩)
    exact ⟨order, fits, more.le⟩
  · rintro ⟨order, fits, stop⟩
    exact .cons order fits (.nil stop)

lemma mem (h : Row cs lo ns hi) : ∀ c ∈ ns, c.Fits cs ∧ lo ≤ c.start ∧ c.stop ≤ hi := by
  induction h with
  | nil => simp
  | cons order fits more ih =>
    have := fits.framed.order
    refine List.forall_mem_cons.mpr ⟨⟨fits, order, more.le⟩, fun c hc => ?_⟩
    obtain ⟨hfits, hlo, hhi⟩ := ih c hc
    exact ⟨hfits, by omega, hhi⟩
  | pair order hp hq start stop first second more ih =>
    have := first.framed.order
    have := more.le
    refine List.forall_mem_cons.mpr ⟨⟨first, order, by omega⟩,
      List.forall_mem_cons.mpr ⟨⟨second, by omega, by omega⟩, fun c hc => ?_⟩⟩
    obtain ⟨hfits, hlo, hhi⟩ := ih c hc
    exact ⟨hfits, by omega, hhi⟩

/-- The nodes of a row stand apart. -/
lemma apart (h : Row cs lo ns hi) : ns.Pairwise Node.Apart := by
  -- whatever follows a node in its row starts behind it
  have behind {a : Node} {ns : List Node} {hi : Nat} (ha : a.Fits cs) (h : Row cs a.stop ns hi) :
      ∀ b ∈ ns, a.Apart b := by
    intro b hb
    have := ha.framed.order
    have := (h.mem b hb).2.1
    exact ⟨by omega, .inl this⟩
  induction h with
  | nil => exact .nil
  | cons order fits more ih => exact .cons (behind fits more) ih
  | pair order hp hq start stop first second more ih =>
    refine .cons (List.forall_mem_cons.mpr ⟨?_, behind first more⟩) (.cons ?_ ih)
    · exact ⟨Nat.le_of_eq start, .inr ⟨hp, hq, start, stop⟩⟩
    · exact behind second (stop ▸ more)

/-- A row ends with its last node. -/
lemma to_last {last : Node} (h : Row cs lo ns hi) (hl : ns.getLast? = some last) :
    Row cs lo ns last.stop := by
  induction h with
  | nil => cases hl
  | @cons lo hi n ns order fits more ih =>
    refine .cons order fits ?_
    cases ns with
    | nil =>
      cases hl
      exact .nil (Nat.le_refl _)
    | cons m ms => exact ih (by simpa using hl)
  | @pair lo hi p q ns order hp hq start stop first second more ih =>
    refine .pair order hp hq start stop first second ?_
    cases ns with
    | nil =>
      cases hl
      exact .nil (Nat.le_of_eq stop)
    | cons m ms => exact ih (by simpa using hl)

/-- A node over a row fits. -/
lemma fits {kind : Kind} {p : Place} {stop : Nat} {fields : FieldTable} {value : Option String}
    (h : Row cs p.start ns stop) (hin : stop ≤ cs.length) (hp : p.Named cs)
    (ht : kind.showsText = true →
      value = some (String.ofList (shownText cs kind p.start stop))) :
    (Node.spanning kind p stop ns fields value).Fits cs := by
  refine Node.fits_iff.mpr ⟨⟨⟨h.le, hin, fun c hc => (h.mem c hc).2, h.apart⟩, ?_⟩,
    fun c hc => (h.mem c hc).1⟩
  exact ⟨hp.line, hp.col, ht⟩

/-- A node over a row stands in a row of its own. -/
lemma spanning {kind : Kind} {p : Place} {stop : Nat} {fields : FieldTable} {value : Option String}
    (h : Row cs p.start ns stop) (hin : stop ≤ cs.length) (hp : p.Named cs) (hlo : lo ≤ p.start)
    (hhi : stop ≤ hi) (ht : kind.showsText = false := by rfl) :
    Row cs lo [.spanning kind p stop ns fields value] hi :=
  singleton_iff.mpr ⟨hlo, h.fits hin hp fun h => absurd (h.symm.trans ht) (by decide), hhi⟩

end Row

/-! ### Leaves -/

/-- The leaf of a token shows its text. -/
lemma Token.Sits.leaf {kind : Kind} (h : t.Sits cs) (hk : kind = .comment ↔ t.kind = .comment) :
    (Node.leaf kind t).Fits cs := by
  have hplace := h.stands.place
  have hframed : (Node.leaf kind t).Framed cs.length :=
    ⟨hplace.order, hplace.inside, fun c hc => (List.not_mem_nil hc).elim, .nil⟩
  have hvalue : t.value = String.ofList (shownText cs kind t.start t.stop) := by
    rw [← t.value.ofList_toList, h.stands.value]
    simp only [shownText, hk]
  exact Node.fits_iff.mpr ⟨⟨hframed, hplace.line, hplace.col, fun _ => congrArg some hvalue⟩,
    fun c hc => (List.not_mem_nil hc).elim⟩

lemma Token.Sits.leaf_of_kind {kind : Kind} {k : TokenKind} (h : t.Sits cs) (ht : t.kind = k)
    (hk : kind ≠ .comment ∧ k ≠ .comment := by decide) : (Node.leaf kind t).Fits cs :=
  h.leaf (iff_of_false hk.1 (ht ▸ hk.2))

/-- The leaf of a binary operator. -/
lemma Token.Sits.operator (h : t.Sits cs)
    (hk : t.kind.binary?.isSome = true ∨ t.kind.isUnary = true ∨ t.kind.isSuffix = true) :
    (Node.leaf .operator t).Fits cs := by
  refine h.leaf (iff_of_false (by decide) fun hc => ?_)
  rw [hc] at hk
  revert hk
  decide

lemma Laid.uncons (h : Laid cs lo (t :: ts) hi) :
    lo ≤ t.start ∧ t.Sits cs ∧ Laid cs t.stop ts hi := by
  cases h with
  | cons order _ sits more => exact ⟨order, sits, more⟩

lemma Token.Sits.inside (h : t.Sits cs) : t.stop ≤ cs.length := h.stands.place.inside

lemma Token.Sits.order (h : t.Sits cs) : t.start ≤ t.stop := h.stands.place.order

/-! ### Delimiters -/

/-- The node from an opening to a closing delimiter, over what stands between. -/
lemma Laid.enclosed {opener closer : Token} {kind : Kind}
    (h : Laid cs lo (opener :: (ts ++ [closer])) hi)
    (hrow : ∀ mid, Laid cs opener.stop ts mid → Row cs opener.stop ns mid)
    (ht : kind.showsText = false := by rfl) :
    Row cs lo [.spanning kind opener.place closer.stop ns] hi := by
  obtain ⟨ho1, ho2, h⟩ := h.uncons
  obtain ⟨mid, hts, hc⟩ := h.split
  obtain ⟨hc1, hc2, hc⟩ := hc.uncons
  have hinner := (hrow mid hts).from_le ho2.order
  have hwhole := hinner.to_le (Nat.le_trans hc1 hc2.order)
  exact Row.spanning (p := opener.place) hwhole hc2.inside ho2.named ho1 hc.le ht

/-- The two lists of arguments share the parentheses. -/
lemma Laid.arguments {opener closer : Token} {ls vs ws : List Token} {xs ys : List Node}
    (h : Laid cs lo (opener :: (ls ++ (us ++ (vs ++ closer :: ws)))) hi)
    (hx : ∀ lo hi, Laid cs lo us hi → Row cs lo xs hi)
    (hy : ∀ lo hi, Laid cs lo vs hi → Row cs lo ys hi) :
    Laid cs closer.stop ws hi ∧ closer.stop ≤ cs.length ∧ ∀ ns top, Row cs closer.stop ns top →
      Row cs lo (argumentsNode .positionalArgs opener closer xs
        :: argumentsNode .keywordArgs opener closer ys :: ns) top := by
  obtain ⟨ho1, ho2, h⟩ := h.uncons
  obtain ⟨m1, hls, h⟩ := h.split
  obtain ⟨m2, hus, h⟩ := h.split
  obtain ⟨m3, hvs, h⟩ := h.split
  obtain ⟨hc1, hc2, h⟩ := h.uncons
  have h1 := ho2.order
  have h2 := hls.le
  have h3 := hus.le
  have h4 := hvs.le
  have h5 := hc2.order
  have hxs : Row cs opener.start xs closer.stop :=
    ((hx m1 m2 hus).from_le (by omega)).to_le (by omega)
  have hys : Row cs opener.start ys closer.stop :=
    ((hy m2 m3 hvs).from_le (by omega)).to_le (by omega)
  refine ⟨h, hc2.inside, fun ns top hns => .pair ho1 rfl rfl rfl rfl ?_ ?_ hns⟩
  · exact Row.fits (p := opener.place) hxs hc2.inside ho2.named (by rintro ⟨⟩)
  · exact Row.fits (p := opener.place) hys hc2.inside ho2.named (by rintro ⟨⟩)

end

/-! ### Pieces of strings -/

section

variable {cs v w : List Char} {start stop : Nat} {seg : Segment Token}

/-- Two ranges that touch make one. -/
lemma slice_append {mid : Nat} (hlo : start ≤ mid) (hhi : mid ≤ stop) :
    Text.slice cs start mid ++ Text.slice cs mid stop = Text.slice cs start stop := by
  simp only [Text.slice]
  have htake : cs.take mid = (cs.take stop).take mid := by rw [List.take_take, Nat.min_eq_left hhi]
  rw [htake, List.drop_take]
  calc ((cs.take stop).drop start).take (mid - start) ++ (cs.take stop).drop mid
      = ((cs.take stop).drop start).take (mid - start)
          ++ ((cs.take stop).drop start).drop (mid - start) := by
        rw [List.drop_drop, Nat.add_sub_cancel' hlo]
    _ = (cs.take stop).drop start := List.take_append_drop _ _

/-- The text up to a place within a range. -/
lemma take_of_slice (h : Text.slice cs start stop = v ++ w) (hle : start ≤ stop) :
    cs.take (start + v.length) = cs.take start ++ v := by
  have hlen := congrArg List.length h
  rw [Text.slice, List.length_drop, List.length_take, List.length_append] at hlen
  have hcut : start + v.length ≤ stop ∨ v = [] := by
    cases v with
    | nil => exact .inr rfl
    | cons x xs => rw [List.length_cons] at hlen ⊢; omega
  rcases hcut with hcut | rfl
  · calc cs.take (start + v.length)
        = (cs.take stop).take (start + v.length) := by
          rw [List.take_take, Nat.min_eq_left hcut]
      _ = (cs.take stop).take start ++ ((cs.take stop).drop start).take v.length := List.take_add
      _ = cs.take start ++ v := by
          rw [List.take_take, Nat.min_eq_left hle]
          change _ ++ (Text.slice cs start stop).take v.length = _
          rw [h, List.take_left]
  · simp

/-- Behind characters that end no line, a place lies on the same line. -/
lemma Place.Named.shift {p : Place} (h : p.Named cs)
    (hs : Text.slice cs p.start stop = v ++ w) (hle : p.start ≤ stop) (hv : '\n' ∉ v) :
    Place.Named cs ⟨p.line, p.col + v.length, p.start + v.length⟩ := by
  have htake := take_of_slice hs hle
  have hplain : ∀ x ∈ v.reverse, (x != '\n') = true := by
    intro x hx
    rw [bne_iff_ne]
    rintro rfl
    exact hv (List.mem_reverse.mp hx)
  refine ⟨?_, ?_⟩
  · show p.line = _
    rw [h.line]
    simp only [Text.lineAt]
    rw [htake, List.count_append, List.count_eq_zero.mpr hv, Nat.add_zero]
  · show p.col + v.length = _
    rw [h.col]
    simp only [Text.colAt]
    rw [htake, List.reverse_append, List.takeWhile_append_of_pos hplain, List.length_append,
      List.length_reverse]
    omega

/-- The piece of a string shows its text. -/
lemma fits_piece {kind : Kind} {ns : List Node} {fields : FieldTable}
    (place : Located cs seg.start seg.stop seg.line seg.col)
    (text : seg.text.toList = Text.slice cs seg.start seg.stop) (hk : kind ≠ .comment)
    (h : Row cs seg.start ns seg.stop) :
    (Node.spanning kind (segmentPlace seg) seg.stop ns fields (some seg.text)).Fits cs := by
  refine Row.fits h place.inside ⟨place.line, place.col⟩ fun _ => ?_
  rw [shownText, if_neg hk, ← seg.text.ofList_toList, text]
  rfl

/-- The digits of an escape are the end of its text. -/
lemma fits_hexDigits (place : Located cs seg.start seg.stop seg.line seg.col)
    (text : seg.text.toList = Text.slice cs seg.start seg.stop)
    (digits : seg.text.toList = '\\' :: 'x' :: w) :
    Row cs seg.start
      [{ kind := .hexDigits, value := some (String.ofList w), line := seg.line,
         col := seg.col + 2, start := seg.stop - (String.ofList w).length, stop := seg.stop }]
      seg.stop := by
  have hslice : Text.slice cs seg.start seg.stop = ['\\', 'x'] ++ w := text.symm.trans digits
  have hlen := congrArg List.length hslice
  have horder := place.order
  have hinside := place.inside
  rw [Text.slice, List.length_drop, List.length_take, Nat.min_eq_left hinside,
    List.length_append, List.length_cons, List.length_singleton] at hlen
  have hstart : seg.stop - (String.ofList w).length = seg.start + 2 := by
    rw [String.length_ofList]
    omega
  have hpiece : (segmentPlace seg).Named cs := ⟨place.line, place.col⟩
  have hnamed := hpiece.shift hslice horder (by decide)
  rw [hstart, Row.singleton_iff]
  refine ⟨Nat.le_add_right _ _, ?_, Nat.le_refl _⟩
  refine Node.fits_iff.mpr ⟨⟨⟨?_, hinside, ?_, .nil⟩, hnamed.line, hnamed.col, fun _ => ?_⟩, ?_⟩
  · show seg.start + 2 ≤ seg.stop
    omega
  · exact fun c hc => (List.not_mem_nil hc).elim
  · have hdrop : Text.slice cs (seg.start + 2) seg.stop = w := by
      rw [Text.slice, ← List.drop_drop]
      change (Text.slice cs seg.start seg.stop).drop 2 = w
      rw [hslice]
      rfl
    rw [shownText, if_neg (by rintro ⟨⟩), hdrop]
  · exact fun c hc => (List.not_mem_nil hc).elim

/-- What follows a piece of a string. -/
lemma Parts.tail {P : List Token → Prop} {segs : List (Segment Token)}
    (h : Parts P (seg :: segs) w) : ∃ v, Parts P segs v := by
  cases h <;> exact ⟨_, by assumption⟩

/-- A piece of a string that holds no expression shows its text. -/
lemma fits_plainSegment {P : List Token → Prop} {segs : List (Segment Token)}
    (hf : ∀ tokens, seg.form ≠ .snippet tokens)
    (place : Located cs seg.start seg.stop seg.line seg.col)
    (text : seg.text.toList = Text.slice cs seg.start seg.stop) (h : Parts P (seg :: segs) w) :
    (plainSegment seg).Fits cs ∧ ∃ v, Parts P segs v := by
  refine ⟨?_, h.tail⟩
  have hnil : Row cs seg.start [] seg.stop := .nil place.order
  cases h with
  | chars form =>
    rw [plainSegment, form]
    exact fits_piece place text (by decide) hnil
  | escape form =>
    rw [plainSegment, form]
    exact fits_piece place text (by decide) hnil
  | octal form =>
    rw [plainSegment, form]
    exact fits_piece place text (by decide) hnil
  | unicode form digits =>
    rw [plainSegment, form]
    exact fits_piece place text (by decide) (fits_hexDigits place text digits)
  | snippet form => exact absurd form (hf _)

/-- The tokens of a snippet are spelled right. -/
lemma SnippetSpelled.spelled {allowance : Nat} {ts : List Token}
    (h : SnippetSpelled allowance ts) : ∀ t ∈ ts, t.kind ≠ .eof → ∃ n, t.Spelled n := by
  cases allowance with
  | zero => exact h.elim
  | succ n =>
    obtain ⟨us, e, rfl, he, hus⟩ := h
    intro t ht hne
    rcases List.mem_append.mp ht with ht | ht
    · exact ⟨n, (hus t ht).2⟩
    · rw [List.mem_singleton] at ht
      exact absurd (ht ▸ he) hne

end

/-! ### Expressions -/

/-- A number and a sign that stands right behind it show one text. -/
lemma Token.Sits.percentage {cs : List Char} {t sign : Token} (h : t.Sits cs) (hs : sign.Sits cs)
    (ht : t.kind = .number) (hk : sign.kind = .percent) (hstart : sign.start = t.stop) :
    (Node.spanning .percentage t.place sign.stop [] [] (some (t.value ++ sign.value))).Fits cs := by
  have hle : t.stop ≤ sign.stop := hstart ▸ hs.order
  have hnumber := h.stands.value
  have hsign := hs.stands.value
  rw [if_neg (by rw [ht]; decide)] at hnumber
  rw [if_neg (by rw [hk]; decide), hstart] at hsign
  refine Row.fits (p := t.place) (.nil (Nat.le_trans h.order hle)) hs.inside h.named fun _ => ?_
  have htext : t.value.toList ++ sign.value.toList = Text.slice cs t.start sign.stop := by
    rw [hnumber, hsign, slice_append h.order hle]
  rw [shownText, if_neg (by decide), show t.place.start = t.start from rfl, ← htext,
    String.ofList_append, String.ofList_toList, String.ofList_toList]

section

variable {cs : List Char} {a hi : Nat} {p : Phrase} {op : Token} {ts k : List Token}
  {lhs rhs operand : Node} {ns : List Node}

/-- The node of a binary operator behind its left operand. -/
lemma Node.Fits.binary (h : lhs.Fits cs) (hle : lhs.stop ≤ op.start) (ho : op.Sits cs)
    (hop : op.kind.binary?.isSome = true) (hr : Row cs op.stop [rhs] hi) :
    (binaryNode lhs op rhs).Fits cs := by
  obtain ⟨hr1, hr2, -⟩ := Row.singleton_iff.mp hr
  have hrow : Row cs lhs.start [lhs, .leaf .operator op, rhs] rhs.stop :=
    .cons (Nat.le_refl _) h (.cons hle (ho.operator (.inl hop))
      (.cons hr1 hr2 (.nil (Nat.le_refl _))))
  exact Row.fits (p := lhs.place) hrow hr2.framed.inside h.named (by rintro ⟨⟩)

/-- The node of a suffix operator behind its operand. -/
lemma Node.Fits.suffix (h : operand.Fits cs) (hle : operand.stop ≤ op.start) (ho : op.Sits cs)
    (hop : op.kind.isSuffix = true) : (suffixNode operand op).Fits cs := by
  have hrow : Row cs operand.start [operand, .leaf .operator op] op.stop :=
    .cons (Nat.le_refl _) h (.cons hle (ho.operator (.inr (.inr hop))) (.nil (Nat.le_refl _)))
  exact Row.fits (p := operand.place) hrow ho.inside h.named (by rintro ⟨⟩)

/-- The nodes of a phrase stand in a row where its tokens are laid out; behind an
operand it goes on where the operand ends, and the pieces of a string stand where
they say. -/
def Phrase.Rows (cs : List Char) (ts : List Token) (ns : List Node) : Phrase → Prop
  | .operators _ _ lhs | .suffixes lhs => ∀ lo hi, lhs.Fits cs → lhs.stop ≤ lo →
    Laid cs lo ts hi → Row cs lhs.start ns hi
  | .segments segs => ∀ lo hi allowance w, Pieced cs lo segs hi →
    Parts (SnippetSpelled allowance) segs w →
    (∀ seg ∈ segs, ∀ us, seg.form = .snippet us →
      Tiled cs true [] none (seg.start + 2) us (seg.stop - 2)) → Row cs lo ns hi
  | .statement _ | .statements .. | .block _ | .clauses .. => True
  | _ => ∀ lo hi, Laid cs lo ts hi → Row cs lo ns hi

/-- The nodes of an expression stand in a row, each over the row of its
children. -/
lemma Derives.row (h : Derives a p ts k ns) : p.Rows cs ts ns := by
  induction h with
  | expression _ _ ihl iho =>
    intro lo hi h
    obtain ⟨mid, hts, hus⟩ := h.split
    obtain ⟨horder, hfits, hstop⟩ := Row.singleton_iff.mp (ihl lo mid hts)
    exact (iho mid hi hfits hstop hus).from_le horder
  | operatorsEnd =>
    intro lo hi hfits hstop h
    cases h
    exact Row.singleton_iff.mpr ⟨Nat.le_refl _, hfits, hstop⟩
  | @operatorsMore _ _ _ op ts us _ lhs rhs n _ _ hop _ _ _ _ ihr iho =>
    intro lo hi hfits hstop h
    obtain ⟨hop1, hop2, h⟩ := h.uncons
    obtain ⟨mid, hts, hus⟩ := h.split
    have hr := ihr _ mid hts
    exact iho mid hi (hfits.binary (Nat.le_trans hstop hop1) hop2 (by rw [hop]; rfl) hr)
      (Row.singleton_iff.mp hr).2.2 hus
  | @unaryPrefix _ _ op ts _ n hop _ ih =>
    intro lo hi h
    obtain ⟨hop1, hop2, h⟩ := h.uncons
    obtain ⟨hr1, hr2, hr3⟩ := Row.singleton_iff.mp (ih _ hi h)
    have hrow : Row cs op.start [.leaf .operator op, n] n.stop :=
      .cons (Nat.le_refl _) (hop2.operator (.inr (.inl hop))) (.cons hr1 hr2 (.nil (Nat.le_refl _)))
    exact Row.spanning (p := op.place) hrow hr2.framed.inside hop2.named hop1 hr3
  | unaryPlain _ _ ihp ihs =>
    intro lo hi h
    obtain ⟨mid, hts, hus⟩ := h.split
    obtain ⟨horder, hfits, hstop⟩ := Row.singleton_iff.mp (ihp lo mid hts)
    exact (ihs mid hi hfits hstop hus).from_le horder
  | suffixesEnd =>
    intro lo hi hfits hstop h
    cases h
    exact Row.singleton_iff.mpr ⟨Nat.le_refl _, hfits, hstop⟩
  | @suffixesMore _ op ts _ operand n hop _ _ ih =>
    intro lo hi hfits hstop h
    obtain ⟨hop1, hop2, h⟩ := h.uncons
    have hsuffix : op.kind.isSuffix = true := (Bool.and_eq_true _ _ ▸ hop).1
    exact ih op.stop hi (hfits.suffix (Nat.le_trans hstop hop1) hop2 hsuffix) (Nat.le_refl _) h
  | matrix _ _ _ ih => exact fun lo hi h => h.enclosed fun mid => ih _ mid
  | bracketed _ _ _ ih => exact fun lo hi h => h.enclosed fun mid => ih _ mid
  | plainName _ _ ih => exact ih
  | @call _ _ opener closer ts us vs _ n xs ys _ _ _ _ _ ihn ihx ihy =>
    intro lo hi h
    obtain ⟨mid, hts, h⟩ := h.split
    obtain ⟨hn1, hn2, hn3⟩ := Row.singleton_iff.mp (ihn lo mid hts)
    have h : Laid cs mid (opener :: ([] ++ (us ++ (vs ++ closer :: [])))) hi := h
    obtain ⟨hc, hin, hargs⟩ := h.arguments ihx ihy
    have hrow := Row.cons (Nat.le_refl _) hn2 ((hargs [] _ (.nil (Nat.le_refl _))).from_le hn3)
    exact Row.spanning (p := n.place) hrow hin hn2.named hn1 hc.le
  | @rangeOfTwo _ _ x d y _ hx hd hy _ =>
    intro lo hi h
    obtain ⟨hx1, hx2, h⟩ := h.uncons
    obtain ⟨hd1, hd2, h⟩ := h.uncons
    obtain ⟨hy1, hy2, h⟩ := h.uncons
    have := hd2.stands.place.order
    have hrow : Row cs x.start [.leaf .number x, .leaf .number y] y.stop :=
      .cons (Nat.le_refl _) (hx2.leaf_of_kind hx) (.cons (by show x.stop ≤ y.start; omega)
        (hy2.leaf_of_kind hy) (.nil (Nat.le_refl _)))
    exact Row.spanning (p := x.place) hrow hy2.inside hx2.named hx1 h.le
  | @rangeOfThree _ _ x d y e z _ hx hd hy he hz _ =>
    intro lo hi h
    obtain ⟨hx1, hx2, h⟩ := h.uncons
    obtain ⟨hd1, hd2, h⟩ := h.uncons
    obtain ⟨hy1, hy2, h⟩ := h.uncons
    obtain ⟨he1, he2, h⟩ := h.uncons
    obtain ⟨hz1, hz2, h⟩ := h.uncons
    have := hd2.stands.place.order
    have := he2.stands.place.order
    have hrow : Row cs x.start [.leaf .number x, .leaf .number y, .leaf .number z] z.stop :=
      .cons (Nat.le_refl _) (hx2.leaf_of_kind hx) (.cons (by show x.stop ≤ y.start; omega)
        (hy2.leaf_of_kind hy) (.cons (by show y.stop ≤ z.start; omega) (hz2.leaf_of_kind hz)
          (.nil (Nat.le_refl _))))
    exact Row.spanning (p := x.place) hrow hz2.inside hx2.named hx1 h.le
  | number ht =>
    intro lo hi h
    obtain ⟨h1, h2, h⟩ := h.uncons
    exact .cons h1 (h2.leaf_of_kind ht) (.nil h.le)
  | @percentage _ _ t sign _ ht hs =>
    intro lo hi h
    obtain ⟨ht1, ht2, h⟩ := h.uncons
    cases h with
    | cons _ near hs2 h =>
      simp only [percentAhead, headKind_cons, headSpaced, Bool.and_eq_true, beq_iff_eq,
        Bool.not_eq_true'] at hs
      have hstart := (near hs.2).resolve_right (by rw [hs.1]; decide)
      exact Row.singleton_iff.mpr ⟨ht1, ht2.percentage hs2 ht hs.1 hstart, h.le⟩
  | @string _ _ t _ ns ht _ ih =>
    intro lo hi h
    obtain ⟨h1, h2, h⟩ := h.uncons
    obtain ⟨n, hn⟩ := h2.spelled (by rw [ht]; decide)
    obtain ⟨w, -, hw⟩ := Spells.parts (by rw [← ht]; exact hn)
    have hrow := ih _ _ n w (h2.stands.pieces ht) hw h2.snippets
    have hwhole := (hrow.from_le (Nat.le_add_right _ 1)).to_le (Nat.sub_le _ 1)
    exact Row.spanning (p := t.place) hwhole h2.inside h2.named h1 h.le
  | @name _ _ t ts _ ns ht _ ih =>
    intro lo hi h
    have hlast := h.lastStop_eq (List.cons_ne_nil _ _)
    obtain ⟨h1, h2, h⟩ := h.uncons
    have hrow : Row cs t.start (.leaf .identifier t :: ns) hi :=
      .cons (Nat.le_refl _) (h2.leaf_of_kind ht) (ih _ hi h)
    rw [memberNode, hlast]
    exact Row.spanning (p := t.place) hrow (h.inside h2.inside) h2.named h1 (Nat.le_refl _)
  | membersEnd => exact fun lo hi h => .nil h.le
  | @membersMore _ _ d t ts _ ns _ ht _ ih =>
    intro lo hi h
    obtain ⟨hd1, hd2, h⟩ := h.uncons
    obtain ⟨ht1, ht2, h⟩ := h.uncons
    have hd3 := hd2.order
    exact .cons (by show lo ≤ t.start; omega) (ht2.leaf_of_kind ht) (ih _ hi h)
  | argumentValue _ _ ih => exact ih
  | argumentName ht =>
    intro lo hi h
    obtain ⟨h1, h2, h⟩ := h.uncons
    exact .cons h1 (h2.leaf_of_kind ht) (.nil h.le)
  | @argumentKeyword _ t e ts _ n ht _ hd ih =>
    intro lo hi h
    obtain ⟨ht1, ht2, h⟩ := h.uncons
    obtain ⟨he1, he2, h⟩ := h.uncons
    have hrow : Row cs t.start [.leaf .identifier t, n] hi :=
      .cons (Nat.le_refl _) (ht2.leaf_of_kind ht) ((ih _ hi h).from_le (Nat.le_trans he1 he2.order))
    rw [keywordNode, h.lastStop_eq hd.ne_nil]
    exact Row.spanning (p := t.place) hrow (h.inside he2.inside) ht2.named ht1 (Nat.le_refl _)
  | argumentsEnd => exact fun lo hi h => .nil h.le
  | argumentsLast _ _ ih => exact ih
  | argumentsMore _ _ _ _ ih ihs =>
    intro lo hi h
    obtain ⟨mid, hts, h⟩ := h.split
    obtain ⟨hc1, hc2, h⟩ := h.uncons
    exact (ih lo mid hts).append ((ihs _ hi h).from_le (Nat.le_trans hc1 hc2.order))
  | elementsEnd => exact fun lo hi h => .nil h.le
  | elementsMore _ _ _ ih ihs =>
    intro lo hi h
    obtain ⟨mid, hts, h⟩ := h.split
    exact (ih lo mid hts).append (ihs mid hi h)
  | elementsComma _ _ _ ih ihs =>
    intro lo hi h
    obtain ⟨mid, hts, h⟩ := h.split
    obtain ⟨hc1, hc2, h⟩ := h.uncons
    exact (ih lo mid hts).append ((ihs _ hi h).from_le (Nat.le_trans hc1 hc2.order))
  | @rowsLast _ t ts _ last ns _ hl _ ih =>
    intro lo hi h
    obtain ⟨ht1, ht2, -⟩ := h.uncons
    have hrow := ih _ hi h.from_start
    obtain ⟨hfits, -, hstop⟩ := hrow.mem last (List.mem_of_getLast? hl)
    exact Row.spanning (p := t.place) (hrow.to_last hl) hfits.framed.inside ht2.named ht1 hstop
  | @rowsMore _ t c ts us _ ns ms _ _ _ _ ih ihs =>
    intro lo hi h
    have h : Laid cs lo ((t :: ts) ++ c :: us) hi := h
    obtain ⟨mid, hts, h⟩ := h.split
    obtain ⟨hc1, hc2, h⟩ := h.uncons
    obtain ⟨ht1, ht2, -⟩ := hts.uncons
    have hrow := (ih _ mid hts.from_start).to_le (Nat.le_trans hc1 hc2.order)
    exact (Row.spanning (p := t.place) hrow hc2.inside ht2.named ht1 (Nat.le_refl _)).append
      (ihs _ hi h)
  | segmentsNil =>
    intro lo hi _ _ hp _ _
    cases hp
    exact .nil (Nat.le_refl _)
  | @segmentsPlain _ seg segs ns hf _ ih =>
    intro lo hi allowance w hp hw hsnip
    rw [List.forall_mem_cons] at hsnip
    cases hp with
    | cons first place extent text _ _ more =>
      obtain ⟨hfits, v, hv⟩ : (plainSegment seg).Fits cs
          ∧ ∃ v, Parts (SnippetSpelled allowance) segs v := fits_plainSegment hf place text hw
      have hends : (plainSegment seg).start = seg.start ∧ (plainSegment seg).stop = seg.stop := by
        unfold plainSegment
        split <;> exact ⟨rfl, rfl⟩
      refine .cons (Nat.le_of_eq (first.symm.trans hends.1.symm)) hfits ?_
      rw [hends.2]
      exact ih _ hi allowance v more hv hsnip.2
  | @segmentsSnippet _ seg segs tokens ts k n ns hf hs _ _ _ ihe ih =>
    intro lo hi allowance w hp hw hsnip
    rw [List.forall_mem_cons] at hsnip
    cases hp with
    | cons first place extent text _ inner more =>
      have htokens := (hw.tokens List.mem_cons_self hf).spelled
      have hfour := inner tokens hf
      obtain ⟨hi', hle, hlaid⟩ :=
        laid_settle (hsnip.1 tokens hf) htokens (Nat.le_refl _) (fun _ => rfl) 0
      rw [hs] at hlaid
      obtain ⟨mid, hts, hk⟩ := hlaid.split
      have hmid := hk.le
      have hrow := ((ihe _ mid hts).from_le (Nat.le_add_right seg.start 2)).to_le
        (show mid ≤ seg.stop by omega)
      have hnode : Row cs seg.start [snippetNode seg n] seg.stop :=
        Row.spanning (p := segmentPlace seg) hrow place.inside ⟨place.line, place.col⟩
          (Nat.le_refl _) (Nat.le_refl _)
      obtain ⟨v, hv⟩ := hw.tail
      exact (hnode.from_le (Nat.le_of_eq first.symm)).append
        (ih _ hi allowance v more hv hsnip.2)
  | _ => trivial

end

end StpLang
