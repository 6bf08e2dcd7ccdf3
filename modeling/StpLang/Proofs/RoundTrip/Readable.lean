import StpLang.Proofs.Grouping
import StpLang.Proofs.RoundTrip.Piece
import StpLang.Proofs.Schema.Grammar

/-!
What a tree shows of its text.

The words, the operators and the strings of a text appear in its tree as they have
been read, and so the tree shows nothing that could not be read. Only the rows of a
matrix may hold elements that have to be kept apart by commas.

* `Node.Readable` says that the nodes of a subtree show what can be read, matrix rows
  aside.
* `Derives.segmented`: the pieces of a string are those into which its text is cut.
* `Derives.readable` follows this through the grammar.
-/

namespace StpLang

open Grammar Node

/-! ### Spellings -/

section

variable {P : List Token → Prop} {kind : TokenKind} {value s : String}
  {segs : List (Segment Token)} {t u : Token}

lemma Spells.isName (h : Spells P .identifier value segs) : isName value = true := by
  have hop : ∀ o ∈ TokenKind.operators, o.2 ≠ .identifier := by decide
  cases h with
  | @word _ x w hx hw hk =>
    have hword : TokenKind.ofWord (String.ofList (x :: w)) = .identifier :=
      (hk.resolve_right fun h => by cases h.1).symm
    simp only [StpLang.isName, String.toList_ofList, Bool.and_eq_true, beq_iff_eq,
      List.all_eq_true]
    exact ⟨⟨hx, hw⟩, hword⟩
  | operator h => exact absurd rfl (hop _ h)

lemma Spells.isNumeral (h : Spells P .number value segs) : isNumeral value = true := by
  have hop : ∀ o ∈ TokenKind.operators, o.2 ≠ .number := by decide
  cases h with
  | word _ _ hk => exact absurd (TokenKind.mem_words hk) (by decide)
  | @number w hw =>
    have hlen := Scan.numberLength_append (k := []) hw (by simp) rfl
    obtain ⟨x, v, rfl, hx⟩ := hw.digit
    rw [List.append_nil] at hlen
    simp [StpLang.isNumeral, hlen, hx]
  | operator h => exact absurd rfl (hop _ h)

/-- Operators are known by their spelling. -/
lemma TokenKind.ofSpelling?_eq (h : kind.spelling? = some s) : ofSpelling? s = some kind := by
  have hall : ∀ o ∈ ("mod", TokenKind.mod) :: operators ++ keywords,
      ofSpelling? o.1 = some o.2 := by decide
  obtain ⟨o, ho, rfl⟩ := Option.map_eq_some_iff.mp h
  have hkind : o.2 = kind := by simpa using List.find?_some ho
  rw [hall o (List.mem_of_find?_eq_some ho), hkind]

/-- A token of a text that is no end mark is spelled right. -/
lemma Token.Regular.spells (h : t.Regular) (hk : t.kind = kind) (hne : kind ≠ .eof) :
    ∃ n, Spells (SnippetSpelled n) kind t.value t.segments := by
  subst hk
  exact h hne

/-- The leaf of an operator shows its kind. -/
lemma Token.Regular.operator? (h : t.Regular) (hs : t.kind.spelling?.isSome = true) :
    (leaf .operator t).operator? = some t.kind := by
  obtain ⟨s, hs⟩ := Option.isSome_iff_exists.mp hs
  obtain ⟨n, hn⟩ := h.spells rfl (by rintro hk; rw [hk] at hs; cases hs)
  show TokenKind.ofSpelling? t.value = _
  rw [hn.spelling hs, TokenKind.ofSpelling?_eq hs]

/-- All operators have a spelling. -/
lemma TokenKind.isSome_spelling? (h : kind.isUnary = true ∨ kind.isSuffix = true
    ∨ kind.binary?.isSome = true) : kind.spelling?.isSome = true := by
  cases kind <;> first | rfl | (rcases h with h | h | h <;> cases h)

end

/-! ### Trees of texts -/

namespace Node

variable {n : Node} {ns : List Node} {kind : Kind} {t : Token}

/-- Every node of the subtree that is no row of a matrix shows words that can be read. -/
def Readable (n : Node) : Prop :=
  ∀ m ∈ n.walk, m.kind ≠ .matrixRow → m.kind ≠ .lastRow → m.spelt = true

lemma readable_iff : n.Readable ↔ (n.kind ≠ .matrixRow → n.kind ≠ .lastRow → n.spelt = true)
    ∧ ∀ c ∈ n.children, c.Readable := n.forall_mem_walk

lemma readable_leaf (h : (leaf kind t).spelt = true) : (leaf kind t).Readable :=
  readable_iff.mpr ⟨fun _ _ => h, fun _ hc => (List.not_mem_nil hc).elim⟩

/-- A node over nodes that show what can be read. -/
lemma readable_spanning {p : Place} {stop : Nat} {fields : FieldTable} {value : Option String}
    (h : (spanning kind p stop ns fields value).spelt = true) (hs : ∀ c ∈ ns, c.Readable) :
    (spanning kind p stop ns fields value).Readable :=
  readable_iff.mpr ⟨fun _ _ => h, hs⟩

lemma readable_row {p : Place} {stop : Nat} (hk : kind = .matrixRow ∨ kind = .lastRow)
    (hs : ∀ c ∈ ns, c.Readable) : (spanning kind p stop ns).Readable :=
  readable_iff.mpr ⟨fun h h' => (hk.elim h h').elim, hs⟩

lemma readable_identifier (h : t.Regular) (hk : t.kind = .identifier) :
    (leaf .identifier t).Readable := by
  obtain ⟨n, hn⟩ := h.spells hk (by decide)
  exact readable_leaf hn.isName

lemma readable_number (h : t.Regular) (hk : t.kind = .number) : (leaf .number t).Readable := by
  obtain ⟨n, hn⟩ := h.spells hk (by decide)
  exact readable_leaf hn.isNumeral

lemma readable_operator (t : Token) : (leaf .operator t).Readable := readable_leaf rfl

lemma readable_percentage {u : Token} (ht : t.Regular) (hk : t.kind = .number) (hu : u.Regular)
    (hp : percentAhead [u] = true) {p : Place} {stop : Nat} :
    (spanning .percentage p stop [] [] (some (t.value ++ u.value))).Readable := by
  obtain ⟨n, hn⟩ := ht.spells hk (by decide)
  simp only [percentAhead, headKind_cons, Bool.and_eq_true, beq_iff_eq] at hp
  obtain ⟨m, hm⟩ := hu.spells hp.1 (by decide)
  refine readable_spanning ?_ (by simp)
  rw [hm.spelling (s := "%") rfl]
  have hnumeral := hn.isNumeral
  show isPercentage (t.value ++ "%") = true
  simp [isPercentage, hnumeral]

/-- The leaf of `break` or `cont`. -/
lemma readable_loopControl (h : t.Regular) (hk : t.kind = .kwBreak ∨ t.kind = .kwCont) :
    (leaf (.ofName t.value) t).Readable := by
  rcases hk with hk | hk
  · obtain ⟨n, hn⟩ := h.spells hk (by decide)
    rw [show t.value = "break" from hn.spelling rfl,
      show Kind.ofName "break" = .breakStatement by decide]
    exact readable_leaf rfl
  · obtain ⟨n, hn⟩ := h.spells hk (by decide)
    rw [show t.value = "cont" from hn.spelling rfl,
      show Kind.ofName "cont" = .contStatement by decide]
    exact readable_leaf rfl

/-- A piece of a string that holds no expression. -/
lemma readable_plainSegment {P : List Token → Prop} {seg : Segment Token}
    {segs : List (Segment Token)} {w : List Char} (hf : ∀ tokens, seg.form ≠ .snippet tokens)
    (h : Parts P (seg :: segs) w) : (plainSegment seg).Readable := by
  cases h with
  | chars form | escape form | octal form =>
    rw [plainSegment, form]
    exact readable_spanning rfl (by simp)
  | unicode form =>
    rw [plainSegment, form]
    refine readable_spanning rfl (List.forall_mem_singleton.mpr ?_)
    exact readable_iff.mpr ⟨fun _ _ => rfl, fun _ hc => (List.not_mem_nil hc).elim⟩
  | snippet form => exact absurd form (hf _)

end Node

/-! ### Strings -/

section

variable {a : Nat} {ts k : List Token} {ns : List Node} {segs : List (Segment Token)}
  {seg : Segment Token} {w : List Char} {P : List Token → Prop}

/-- A piece of a string that holds no expression, before others. -/
lemma Parts.isPiece (h : Parts P (seg :: segs) w) (hf : ∀ tokens, seg.form ≠ .snippet tokens) :
    ∃ v, Parts P segs v ∧ (plainSegment seg).isPiece (v.takeWhile Scan.isPlain) = true
      ∧ ∀ ns, leadingChars (plainSegment seg :: ns) = w.takeWhile Scan.isPlain := by
  have hback (u v : List Char) : ('\\' :: u ++ v).takeWhile Scan.isPlain = [] := rfl
  cases h with
  | @chars _ _ v form hne plain ends more =>
    have hnil : v.takeWhile Scan.isPlain = [] := by
      cases v with
      | nil => rfl
      | cons x v => exact List.takeWhile_cons_of_neg (by simp [ends x rfl])
    refine ⟨v, more, ?_, fun ns => ?_⟩
    · simpa [Node.isPiece, plainSegment, form, segmentKind, spanning, hnil, hne] using plain
    · rw [List.takeWhile_append_of_pos plain, hnil, List.append_nil]
      simp [leadingChars, plainSegment, form, segmentKind, spanning]
  | @escape _ _ x v form text hx more =>
    refine ⟨v, more, ?_, fun ns => ?_⟩
    · simpa [Node.isPiece, plainSegment, form, segmentKind, spanning, text] using hx
    · rw [text, hback]
      simp [leadingChars, plainSegment, form, segmentKind, spanning]
  | @unicode _ _ u v form text digits more =>
    refine ⟨v, more, ?_, fun ns => ?_⟩
    · rw [hexLength_of_lead rfl u] at digits
      simp [Node.isPiece, plainSegment, form, spanning, text, digits]
    · rw [text, hback]
      simp [leadingChars, plainSegment, form, spanning]
  | @octal _ _ u v form text hu digits more =>
    refine ⟨v, more, ?_, fun ns => ?_⟩
    · simpa [Node.isPiece, plainSegment, form, segmentKind, spanning, text, hu] using digits
    · rw [text, hback]
      simp [leadingChars, plainSegment, form, segmentKind, spanning]
  | snippet form => exact absurd form (hf _)

/-- The pieces of a string that has been read are those into which its text is cut. -/
lemma Derives.segmented (h : Derives a (.segments segs) ts k ns) (hw : Parts P segs w) :
    segmented ns = true ∧ leadingChars ns = w.takeWhile Scan.isPlain := by
  induction segs generalizing ts k ns w with
  | nil =>
    cases h
    cases hw
    exact ⟨rfl, rfl⟩
  | cons seg segs ih =>
    cases h with
    | segmentsPlain hf h =>
      obtain ⟨v, hv, hpiece, hlead⟩ := hw.isPiece hf
      obtain ⟨hmore, hplain⟩ := ih h hv
      rw [Node.segmented, hplain, hpiece, hmore]
      exact ⟨rfl, hlead _⟩
    | segmentsSnippet hf _ _ _ h =>
      obtain ⟨v, hv⟩ := hw.tail
      obtain ⟨hmore, -⟩ := ih h hv
      rw [Node.segmented, hmore, Bool.and_true]
      refine ⟨rfl, ?_⟩
      cases hw with
      | snippet _ text =>
        rw [text]
        rfl
      | chars form | escape form | unicode form | octal form =>
        rw [hf] at form
        cases form

end

/-! ### Operators -/

section

variable {a level : Nat} {assoc : Assoc} {m : Bool} {g l r : Grouping} {x : Node} {op t : Token}
  {ts k : List Token}

/-- The operators of a grouping are those of a text. -/
def Grouping.Regular (g : Grouping) : Prop := ∀ t, Element.operator t ∈ g.sequence → t.Regular

lemma Covers.regular (h : Covers m g.sequence ts k) (hts : ∀ t ∈ ts, t.Regular) : g.Regular :=
  fun _ ht => hts _ (h.mem ht)

lemma Grouping.Regular.binary (hl : l.Regular) (ho : op.Regular) (hr : r.Regular) :
    (Grouping.binary l op r).Regular := by
  intro t ht
  rcases List.mem_append.mp ht with ht | ht
  · exact hl t ht
  · rcases List.mem_cons.mp ht with ht | ht
    · cases ht
      exact ho
    · exact hr t ht

/-- The node of a grouping binds as tightly as the grouping does, up to the level of the
prefix operators. -/
lemma Grouping.Canonical.le_level (h : g.Canonical) (hg : g.Regular) :
    min g.level 5 ≤ g.node.level := by
  cases h with
  | @primary n hn =>
    have hbinding : n.binding = (5, .left) := by
      unfold Node.binding
      split
      · rename_i hk _
        rw [hk] at hn
        cases hn
      · rfl
    rw [Grouping.node, Node.level, hbinding]
    exact Nat.min_le_right ..
  | suffix | unary => exact Nat.min_le_right ..
  | @binary l r op level assoc hop =>
    have hshown : (leaf .operator op).operator? = some op.kind :=
      (hg op (by simp [Grouping.sequence])).operator?
        (TokenKind.isSome_spelling? (.inr (.inr (by rw [hop]; rfl))))
    have hlevel : (binaryNode l.node op r.node).level = level := by
      rw [Node.level, show (binaryNode l.node op r.node).binding
        = (((leaf .operator op).operator?.bind TokenKind.binary?).getD (5, .left)) from rfl,
        hshown, Option.bind_some, hop]
      rfl
    rw [Grouping.level_binary hop, Grouping.node, hlevel]
    exact Nat.min_le_left ..

lemma readable_binary (hop : op.kind.binary? = some (level, assoc)) (ho : op.Regular)
    (hl : l.node.Readable) (hr : r.node.Readable) (hll : leftLevel level assoc ≤ l.node.level)
    (hrl : rightLevel level assoc ≤ r.node.level) : (binaryNode l.node op r.node).Readable := by
  have hshown := ho.operator? (TokenKind.isSome_spelling? (.inr (.inr (by rw [hop]; rfl))))
  refine readable_spanning ?_ (by simp [hl, hr, readable_operator])
  show ((leaf .operator op).operator?.bind TokenKind.binary?).any _ = true
  simp [hshown, hop, hll, hrl]

lemma readable_unary (hop : op.kind.isUnary = true) (ho : op.Regular) (hx : x.Readable) :
    (prefixNode op x).Readable := by
  have hshown := ho.operator? (TokenKind.isSome_spelling? (.inl hop))
  refine readable_spanning ?_ (by simp [hx, readable_operator])
  show (leaf .operator op).operator?.any _ = true
  simp [hshown, hop]

/-- A suffix operator behind a number is no percent sign. -/
lemma readable_suffix (hop : suffixAhead [op] = true) (ho : op.Regular) (hx : x.Readable)
    (hp : x.kind = .number → percentAhead (op :: ts) = false) : (suffixNode x op).Readable := by
  simp only [suffixAhead, headKind_cons, headSpaced, Bool.and_eq_true, Bool.not_eq_true'] at hop
  have hsign (hk : x.kind = .number) : op.kind ≠ .percent := by
    simpa [percentAhead, headSpaced, hop.2] using hp hk
  have hshown := ho.operator? (TokenKind.isSome_spelling? (.inr (.inl hop.1)))
  refine readable_spanning ?_ (by simp [hx, readable_operator])
  show ((leaf .operator op).operator?.any _
    && !(x.kind == .number && (leaf .operator op).operator? == some TokenKind.percent)) = true
  rw [hshown]
  by_cases hk : x.kind = .number
  · simp [hop.1, hsign hk]
  · simp [hop.1, hk]

lemma Derives.percentAhead_of_number (h : Derives a (.primary m) ts k [x])
    (hk : x.kind = .number) : percentAhead k = false := by
  cases h with
  | number _ _ hp => exact hp
  | plainName h =>
    cases h
    cases hk
  | _ => cases hk

end

/-! ### Rules -/

/-- What stands before the rest of a phrase shows what can be read, and the tokens `ts`
ahead do not go to its last operand. The pieces of a string are those of a text. -/
def Phrase.Ready (ts : List Token) : Phrase → Prop
  | .operators _ m lhs => lhs.Readable ∧ ∃ l : Grouping, l.node = lhs ∧ l.Canonical ∧ l.Regular
      ∧ operatorAhead l.reach m ts = false
  | .suffixes operand => operand.Readable ∧ (operand.kind = .number → percentAhead ts = false)
  | .segments segs => ∃ n w, Parts (SnippetSpelled n) segs w
  | _ => True

section

variable {a : Nat} {p : Phrase} {ts k : List Token} {ns : List Node}

/-- The nodes of a phrase over the tokens of a text show what can be read. -/
theorem Derives.readable (h : Derives a p ts k ns) (hts : ∀ t ∈ ts, t.Regular)
    (hp : p.Ready (ts ++ k)) : ∀ n ∈ ns, n.Readable := by
  induction h with
  | expression hl _ ihl iho =>
    rw [List.forall_mem_append] at hts
    obtain ⟨l, hn, hcanonical, hcover, hlevel⟩ := hl.groups
    cases hn
    exact iho hts.2 ⟨ihl hts.1 trivial _ (List.mem_singleton_self _), l, rfl, hcanonical,
      hcover.regular hts.1, l.operatorAhead_reach hlevel ..⟩
  | operatorsEnd | suffixesEnd => exact List.forall_mem_singleton.mpr hp.1
  | operatorsMore hop hahead hr _ _ ihr iho =>
    rw [List.forall_mem_cons, List.forall_mem_append] at hts
    obtain ⟨hleft, l, rfl, hl, hlregular, hreach⟩ := hp
    obtain ⟨r, hrn, hcr, hcover, hrl, hrest⟩ := hr.groups
    cases hrn
    rw [Nat.min_eq_left (rightLevel_le hop)] at hrl
    have hregular := hcover.regular hts.2.1
    have hll := leftLevel_le_level hl hop hahead (by simpa [List.append_assoc] using hreach)
    have hlnode := hl.le_level hlregular
    have hrnode := hcr.le_level hregular
    have hlbound := leftLevel_le hop
    have hrbound := rightLevel_le hop
    have hright := ihr hts.2.1 trivial _ (List.mem_singleton_self _)
    refine iho hts.2.2 ⟨readable_binary hop hts.1 hleft hright (by omega) (by omega),
      .binary l _ r, rfl, .binary hop hl hcr hll hrl, hlregular.binary hts.1 hregular, ?_⟩
    rw [Grouping.reach_binary hop]
    exact hrest
  | unaryPrefix hop _ ih =>
    rw [List.forall_mem_cons] at hts
    exact List.forall_mem_singleton.mpr
      (readable_unary hop hts.1 (ih hts.2 trivial _ (List.mem_singleton_self _)))
  | unaryPlain hprimary _ ihp ihs =>
    rw [List.forall_mem_append] at hts
    exact ihs hts.2 ⟨ihp hts.1 trivial _ (List.mem_singleton_self _),
      hprimary.percentAhead_of_number⟩
  | suffixesMore hop _ _ ih =>
    rw [List.forall_mem_cons] at hts
    exact ih hts.2 ⟨readable_suffix hop hts.1 hp.1 hp.2, fun hk => by cases hk⟩
  | matrix _ _ _ ih | bracketed _ _ _ ih | block _ _ _ ih =>
    rw [List.forall_mem_cons, List.forall_mem_append] at hts
    exact List.forall_mem_singleton.mpr (readable_spanning rfl (ih hts.2.1 trivial))
  | plainName _ _ ih | argumentValue _ _ ih | argumentsLast _ _ ih => exact ih hts trivial
  | call _ _ _ _ _ ihn ihx ihy =>
    simp only [List.forall_mem_append, List.forall_mem_cons] at hts
    obtain ⟨hn, -, hx, hy, -⟩ := hts
    refine List.forall_mem_singleton.mpr (readable_spanning rfl ?_)
    rw [List.forall_mem_cons, List.forall_mem_cons, List.forall_mem_singleton]
    exact ⟨ihn hn trivial _ (List.mem_singleton_self _), readable_spanning rfl (ihx hx trivial),
      readable_spanning rfl (ihy hy trivial)⟩
  | rangeOfTwo hx _ hy =>
    simp only [List.forall_mem_cons] at hts
    refine List.forall_mem_singleton.mpr (readable_spanning rfl ?_)
    simp [readable_number hts.1 hx, readable_number hts.2.2.1 hy]
  | rangeOfThree hx _ hy _ hz =>
    simp only [List.forall_mem_cons] at hts
    refine List.forall_mem_singleton.mpr (readable_spanning rfl ?_)
    simp [readable_number hts.1 hx, readable_number hts.2.2.1 hy,
      readable_number hts.2.2.2.2.1 hz]
  | number ht =>
    exact List.forall_mem_singleton.mpr (readable_number (hts _ (List.mem_singleton_self _)) ht)
  | percentage ht hs =>
    simp only [List.forall_mem_cons] at hts
    exact List.forall_mem_singleton.mpr (readable_percentage hts.1 ht hts.2.1 hs)
  | string ht h ih =>
    obtain ⟨m, hm⟩ := (hts _ (List.mem_singleton_self _)).spells ht (by decide)
    obtain ⟨w, -, hparts⟩ := Spells.parts hm
    exact List.forall_mem_singleton.mpr
      (readable_spanning (h.segmented hparts).1 (ih (by simp) ⟨m, w, hparts⟩))
  | name ht _ ih =>
    rw [List.forall_mem_cons] at hts
    refine List.forall_mem_singleton.mpr (readable_spanning rfl ?_)
    exact List.forall_mem_cons.mpr ⟨readable_identifier hts.1 ht, ih hts.2 trivial⟩
  | membersEnd | argumentsEnd | elementsEnd | segmentsNil | statementsEnd | clausesEnd =>
    exact fun _ hn => (List.not_mem_nil hn).elim
  | membersMore _ ht _ ih =>
    rw [List.forall_mem_cons, List.forall_mem_cons] at hts
    exact List.forall_mem_cons.mpr ⟨readable_identifier hts.2.1 ht, ih hts.2.2 trivial⟩
  | argumentName ht =>
    exact List.forall_mem_singleton.mpr
      (readable_identifier (hts _ (List.mem_singleton_self _)) ht)
  | argumentKeyword ht _ _ ih =>
    rw [List.forall_mem_cons, List.forall_mem_cons] at hts
    refine List.forall_mem_singleton.mpr (readable_spanning rfl ?_)
    exact List.forall_mem_cons.mpr ⟨readable_identifier hts.1 ht, ih hts.2.2 trivial⟩
  | argumentsMore _ _ _ _ ih ihs | elementsComma _ _ _ ih ihs =>
    rw [List.forall_mem_append, List.forall_mem_cons] at hts
    exact List.forall_mem_cons.mpr ⟨ih hts.1 trivial _ (List.mem_singleton_self _),
      ihs hts.2.2 trivial⟩
  | elementsMore _ _ _ ih ihs | statementsMore _ _ ih ihs =>
    rw [List.forall_mem_append] at hts
    exact List.forall_mem_cons.mpr ⟨ih hts.1 trivial _ (List.mem_singleton_self _),
      ihs hts.2 trivial⟩
  | rowsLast _ _ _ ih =>
    exact List.forall_mem_singleton.mpr (readable_row (.inr rfl) (ih hts trivial))
  | rowsMore _ _ _ _ ih ihs =>
    simp only [List.forall_mem_append, List.forall_mem_cons] at hts
    obtain ⟨h1, h2, -, h3⟩ := hts
    exact List.forall_mem_cons.mpr
      ⟨readable_row (.inl rfl) (ih (List.forall_mem_cons.mpr ⟨h1, h2⟩) trivial), ihs h3 trivial⟩
  | segmentsPlain hf _ ih =>
    obtain ⟨m, w, hparts⟩ := hp
    obtain ⟨v, hv⟩ := hparts.tail
    exact List.forall_mem_cons.mpr ⟨readable_plainSegment hf hparts, ih hts ⟨m, v, hv⟩⟩
  | segmentsSnippet hf hs _ _ _ ihe ih =>
    obtain ⟨m, w, hparts⟩ := hp
    obtain ⟨v, hv⟩ := hparts.tail
    have hinner := regular_of_snippet (hparts.tokens List.mem_cons_self hf)
    rw [hs, List.forall_mem_append] at hinner
    exact List.forall_mem_cons.mpr ⟨readable_spanning rfl (ihe hinner.1 trivial),
      ih hts ⟨m, v, hv⟩⟩
  | comment ht =>
    obtain ⟨m, hm⟩ := (hts _ (List.mem_singleton_self _)).spells ht (by decide)
    exact List.forall_mem_singleton.mpr (readable_leaf hm.isRemark)
  | exit => exact List.forall_mem_singleton.mpr (readable_leaf rfl)
  | loopControl ht =>
    exact List.forall_mem_singleton.mpr
      (readable_loopControl (hts _ (List.mem_singleton_self _)) ht)
  | symbolDeclaration _ hx =>
    rw [List.forall_mem_cons, List.forall_mem_singleton] at hts
    exact List.forall_mem_singleton.mpr
      (readable_spanning rfl (List.forall_mem_singleton.mpr (readable_identifier hts.2 hx)))
  | importStatement _ _ ih | returnStatement _ _ ih =>
    rw [List.forall_mem_cons] at hts
    exact List.forall_mem_singleton.mpr (readable_spanning rfl (ih hts.2 trivial))
  | assignment hx _ _ _ ih =>
    simp only [List.forall_mem_append, List.forall_mem_cons] at hts
    refine List.forall_mem_singleton.mpr (readable_spanning rfl ?_)
    exact List.forall_mem_cons.mpr ⟨readable_identifier hts.1 hx, ih hts.2.2.1 trivial⟩
  | expressionStatement _ _ _ ih =>
    rw [List.forall_mem_append] at hts
    exact List.forall_mem_singleton.mpr (readable_spanning rfl (ih hts.1 trivial))
  | ifStatement _ _ _ _ ih ihb ihc =>
    simp only [List.forall_mem_append, List.forall_mem_cons] at hts
    obtain ⟨-, h1, h2, h3⟩ := hts
    refine List.forall_mem_singleton.mpr (readable_spanning rfl ?_)
    rw [List.forall_mem_cons, List.forall_mem_cons]
    exact ⟨ih h1 trivial _ (List.mem_singleton_self _),
      ihb h2 trivial _ (List.mem_singleton_self _), ihc h3 trivial⟩
  | whileLoop _ _ _ ih ihb =>
    simp only [List.forall_mem_append, List.forall_mem_cons] at hts
    obtain ⟨-, h1, h2⟩ := hts
    refine List.forall_mem_singleton.mpr (readable_spanning rfl ?_)
    exact List.forall_mem_cons.mpr ⟨ih h1 trivial _ (List.mem_singleton_self _), ihb h2 trivial⟩
  | forLoop _ hx _ _ _ ih ihb =>
    simp only [List.forall_mem_append, List.forall_mem_cons] at hts
    obtain ⟨-, h1, -, h2, h3⟩ := hts
    refine List.forall_mem_singleton.mpr (readable_spanning rfl ?_)
    rw [List.forall_mem_cons, List.forall_mem_cons]
    exact ⟨readable_identifier h1 hx, ih h2 trivial _ (List.mem_singleton_self _),
      ihb h3 trivial⟩
  | functionDefinition _ hx _ _ _ _ _ _ ihx ihy ihb =>
    simp only [List.forall_mem_append, List.forall_mem_cons] at hts
    obtain ⟨-, h1, -, -, h2, h3, -, h4⟩ := hts
    refine List.forall_mem_singleton.mpr (readable_spanning rfl ?_)
    rw [List.forall_mem_cons, List.forall_mem_cons, List.forall_mem_cons]
    exact ⟨readable_identifier h1 hx, readable_spanning rfl (ihx h2 trivial),
      readable_spanning rfl (ihy h3 trivial), ihb h4 trivial⟩
  | clausesElseif _ _ _ _ _ ih ihb ihc =>
    simp only [List.forall_mem_append, List.forall_mem_cons] at hts
    obtain ⟨-, -, h1, h2, h3⟩ := hts
    refine List.forall_mem_cons.mpr ⟨readable_spanning rfl ?_, ihc h3 trivial⟩
    exact List.forall_mem_cons.mpr ⟨ih h1 trivial _ (List.mem_singleton_self _), ihb h2 trivial⟩
  | clausesElse _ _ _ _ ihb ihc =>
    simp only [List.forall_mem_append, List.forall_mem_cons] at hts
    obtain ⟨-, -, h1, h2⟩ := hts
    exact List.forall_mem_cons.mpr ⟨readable_spanning rfl (ihb h1 trivial), ihc h2 trivial⟩
  | statementsSeparator _ _ ih =>
    rw [List.forall_mem_cons] at hts
    exact ih hts.2 trivial

end

end StpLang
