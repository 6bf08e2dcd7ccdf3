import StpLang.Program
import StpLang.Proofs.Node
import StpLang.Proofs.Sequence

/-!
Moving a text.

When a text stands behind other lines, what is read from it moves: offsets grow by
the number of characters before it and lines by the number of line ends, while
columns stay. Everything that holds places moves with the text.

* `Shift` tells how far a text moves; `Span.shift`, `Error.shift`, `Token.shift` and
  `Node.shift` move what is read.
* `Shifts` says that a step of reading, taken on the moved text, does what it does on
  the text itself, moved.
-/

namespace StpLang

/-- How far a text moves: behind some characters with some line ends. -/
structure Shift where
  chars : Nat
  lines : Nat

/-- A text moves behind another one. -/
def Shift.behind (w : List Char) : Shift := ⟨w.length, w.count '\n'⟩

variable {d : Shift}

/-! ### Ranges and errors -/

/-- The moved range. -/
def Span.shift (d : Shift) (r : Span) : Span :=
  ⟨r.start + d.chars, r.stop + d.chars, r.line + d.lines, r.col,
    Nat.add_le_add_right r.start_le_stop _⟩

lemma Span.shift_of (d : Shift) (a b l c : Nat) :
    (Span.of a b l c).shift d = .of (a + d.chars) (b + d.chars) (l + d.lines) c := by
  simp only [shift, of, mk.injEq, and_true, true_and]
  omega

/-- The error at the moved range. -/
def Error.shift (d : Shift) (e : Error) : Error := ⟨e.cause, e.span.shift d⟩

/-- The moved place. -/
def Place.shift (d : Shift) (p : Place) : Place := ⟨p.line + d.lines, p.col, p.start + d.chars⟩

/-! ### Tokens -/

mutual

/-- The moved token. -/
def Token.shift (d : Shift) : Token → Token
  | ⟨kind, value, line, col, start, stop, spaced, segments⟩ =>
    ⟨kind, value, line + d.lines, col, start + d.chars, stop + d.chars, spaced,
      shiftPieces d segments⟩

/-- The moved pieces of a string. -/
def shiftPieces (d : Shift) : List (Segment Token) → List (Segment Token)
  | [] => []
  | ⟨form, text, line, col, start, stop⟩ :: segs =>
    ⟨shiftForm d form, text, line + d.lines, col, start + d.chars, stop + d.chars⟩
      :: shiftPieces d segs

/-- What a piece is, with the tokens of a snippet moved. -/
def shiftForm (d : Shift) : SegmentForm Token → SegmentForm Token
  | .snippet ts => .snippet (shiftTokens d ts)
  | .chars => .chars
  | .escape => .escape
  | .unicode digits => .unicode digits
  | .octal => .octal
  | .other name => .other name

/-- The moved tokens. -/
def shiftTokens (d : Shift) : List Token → List Token
  | [] => []
  | t :: ts => t.shift d :: shiftTokens d ts

end

/-- The moved piece of a string. -/
def Segment.shift (d : Shift) (seg : Segment Token) : Segment Token :=
  ⟨shiftForm d seg.form, seg.text, seg.line + d.lines, seg.col, seg.start + d.chars,
    seg.stop + d.chars⟩

lemma shiftPieces_eq (d : Shift) (segs : List (Segment Token)) :
    shiftPieces d segs = segs.map (Segment.shift d) := by
  induction segs with
  | nil => rw [shiftPieces, List.map_nil]
  | cons seg segs ih =>
    obtain ⟨form, text, line, col, start, stop⟩ := seg
    rw [shiftPieces, ih, List.map_cons]
    rfl

lemma shiftTokens_eq (d : Shift) (ts : List Token) : shiftTokens d ts = ts.map (Token.shift d) := by
  induction ts with
  | nil => rw [shiftTokens, List.map_nil]
  | cons t ts ih => rw [shiftTokens, ih, List.map_cons]

lemma shiftForm_snippet (d : Shift) (ts : List Token) :
    shiftForm d (.snippet ts) = .snippet (ts.map (Token.shift d)) := by
  rw [shiftForm, shiftTokens_eq]

namespace Token

lemma shift_eq (d : Shift) (t : Token) :
    t.shift d = ⟨t.kind, t.value, t.line + d.lines, t.col, t.start + d.chars, t.stop + d.chars,
      t.spaced, t.segments.map (Segment.shift d)⟩ := by
  obtain ⟨kind, value, line, col, start, stop, spaced, segments⟩ := t
  rw [shift, shiftPieces_eq]

@[simp] lemma shift_kind (d : Shift) (t : Token) : (t.shift d).kind = t.kind := by rw [shift_eq]

@[simp] lemma shift_value (d : Shift) (t : Token) : (t.shift d).value = t.value := by
  rw [shift_eq]

@[simp] lemma shift_spaced (d : Shift) (t : Token) : (t.shift d).spaced = t.spaced := by
  rw [shift_eq]

@[simp] lemma shift_stop (d : Shift) (t : Token) : (t.shift d).stop = t.stop + d.chars := by
  rw [shift_eq]

@[simp] lemma shift_segments (d : Shift) (t : Token) :
    (t.shift d).segments = t.segments.map (Segment.shift d) := by rw [shift_eq]

@[simp] lemma shift_place (d : Shift) (t : Token) : (t.shift d).place = t.place.shift d := by
  rw [shift_eq]
  rfl

@[simp] lemma shift_span (d : Shift) (t : Token) : (t.shift d).span = t.span.shift d := by
  rw [shift_eq, span, span, Span.shift_of]

@[simp] lemma shift_found (d : Shift) (t : Token) : Found.of (t.shift d) = Found.of t := by
  rw [Found.of, shift_kind, shift_value, Found.of]

lemma shift_eofAt (d : Shift) (line col offset : Nat) :
    (eofAt line col offset).shift d = eofAt (line + d.lines) col (offset + d.chars) := by
  rw [shift_eq]
  rfl

end Token

/-! ### Nodes -/

namespace Node

mutual

/-- The moved node, with everything below it. -/
def shift (d : Shift) : Node → Node
  | ⟨kind, value, line, col, start, stop, children, fields⟩ =>
    ⟨kind, value, line + d.lines, col, start + d.chars, stop + d.chars, shiftAll d children, fields⟩

/-- The moved nodes. -/
def shiftAll (d : Shift) : List Node → List Node
  | [] => []
  | n :: ns => n.shift d :: shiftAll d ns

end

lemma shiftAll_eq (d : Shift) (ns : List Node) : shiftAll d ns = ns.map (shift d) := by
  induction ns with
  | nil => rw [shiftAll, List.map_nil]
  | cons n ns ih => rw [shiftAll, ih, List.map_cons]

lemma shift_eq (d : Shift) (n : Node) :
    n.shift d = ⟨n.kind, n.value, n.line + d.lines, n.col, n.start + d.chars, n.stop + d.chars,
      n.children.map (shift d), n.fields⟩ := by
  obtain ⟨kind, value, line, col, start, stop, children, fields⟩ := n
  rw [shift, shiftAll_eq]

@[simp] lemma shift_value (d : Shift) (n : Node) : (n.shift d).value = n.value := by rw [shift_eq]

@[simp] lemma shift_stop (d : Shift) (n : Node) : (n.shift d).stop = n.stop + d.chars := by
  rw [shift_eq]

@[simp] lemma shift_place (d : Shift) (n : Node) : (n.shift d).place = n.place.shift d := by
  rw [shift_eq]
  rfl

@[simp] lemma shift_leaf (d : Shift) (kind : Kind) (t : Token) :
    (leaf kind t).shift d = leaf kind (t.shift d) := by
  rw [shift_eq, Token.shift_eq]
  rfl

@[simp] lemma shift_spanning (d : Shift) (kind : Kind) (p : Place) (stop : Nat) (ns : List Node)
    (fields : FieldTable) (value : Option String) :
    (spanning kind p stop ns fields value).shift d
      = spanning kind (p.shift d) (stop + d.chars) (ns.map (shift d)) fields value := by
  rw [shift_eq]
  rfl

mutual

lemma height_shift (d : Shift) : (n : Node) → (n.shift d).height = n.height
  | ⟨_, _, _, _, _, _, children, _⟩ => by
    rw [shift, height, height, maxHeight_shiftAll d children]

lemma maxHeight_shiftAll (d : Shift) : (ns : List Node) →
    maxHeight (shiftAll d ns) = maxHeight ns
  | [] => by rw [shiftAll]
  | n :: ns => by
    rw [shiftAll, maxHeight, maxHeight, height_shift d n, maxHeight_shiftAll d ns]

end

end Node

/-! ### Steps of reading -/

variable {σ α β : Type} {S : σ → σ → Prop} {act : α → α} {act' : β → β}

/-- Two results agree up to moving: the values by `act`, the errors by the shift, and
the states by a relation. -/
inductive ShiftedResult (d : Shift) (S : σ → σ → Prop) (act : α → α) :
    EStateM.Result Error σ α → EStateM.Result Error σ α → Prop
  | ok {a : α} {t t' : σ} (h : S t t') : ShiftedResult d S act (.ok a t) (.ok (act a) t')
  | error {e : Error} {t t' : σ} (h : S t t') :
      ShiftedResult d S act (.error e t) (.error (e.shift d) t')

/-- From states that agree up to moving, two steps of reading give results that do. -/
structure Shifts (d : Shift) (S : σ → σ → Prop) (act : α → α) (f f' : EStateM Error σ α) : Prop
    where
  run : ∀ {s s'}, S s s' → ShiftedResult d S act (f s) (f' s')

namespace Shifts

variable {f f' : EStateM Error σ α} {g g' : α → EStateM Error σ β}

lemma pure (a : α) : Shifts d S act (pure a) (pure (act a)) := ⟨fun h => .ok h⟩

lemma of_eq {a a' : α} (h : a' = act a) : Shifts d S act (Pure.pure a) (Pure.pure a') := by
  rw [h]
  exact .pure a

lemma throw {e e' : Error} (h : e' = e.shift d) :
    Shifts d S act (throw e : EStateM Error σ α) (throw e') := by
  rw [h]
  exact ⟨fun h => .error h⟩

lemma bind (hf : Shifts d S act f f') (hg : ∀ a, Shifts d S act' (g a) (g' (act a))) :
    Shifts d S act' (f >>= g) (f' >>= g') := by
  refine ⟨fun {s s'} h => ?_⟩
  have hr := hf.run h
  generalize hs : f s = r at hr
  generalize hs' : f' s' = r' at hr
  cases hr with
  | ok ht =>
    rw [bind_ok hs, bind_ok hs']
    exact (hg _).run ht
  | error ht =>
    rw [bind_error hs, bind_error hs']
    exact .error ht

lemma ite {c : Prop} [Decidable c] {f₁ f₁' : EStateM Error σ α} (hf : c → Shifts d S act f f')
    (hf₁ : ¬c → Shifts d S act f₁ f₁') :
    Shifts d S act (if c then f else f₁) (if c then f' else f₁') := by
  split
  · exact hf ‹c›
  · exact hf₁ ‹¬c›

end Shifts

end StpLang
