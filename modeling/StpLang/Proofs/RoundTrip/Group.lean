import StpLang.Proofs.RoundTrip.Speaks

/-!
Calls and matrices are read as they are written.

* `SpeaksItem` says that the text of an argument is read as the argument, and
  `tells_parens` puts arguments between parentheses.
* `SpeaksName.call` reads a call.
* `tells_elements` and `tells_rows` read the rows of a matrix, `speaks_matrix` the
  whole of it.
-/

namespace StpLang

open Source

/-! ### Arguments -/

/-- How many levels an argument and its expressions may demand. -/
def ArgumentForm.room (a : Nat) : ArgumentForm → Nat
  | .value => a
  | .parameter | .keyword => a + 1

/-- The tokens form the argument `e`. -/
def ArgumentOf (form : ArgumentForm) (e : Node) (us : List Token) : Prop :=
  ∃ e', e.sameStructure e' = true ∧ ∀ {a : Nat} {k : List Token}, e.demand < form.room a →
    headKind k = .comma ∨ headKind k = .rightParen → Derives a (.argument form) us k [e']

/-- The text of the argument `e` is read as `e`. -/
structure SpeaksItem (n : Nat) (form : ArgumentForm) (e : Node) (s : String) : Prop where
  text : expression e = .ok s
  opens : Opens s.toList
  tells : Tells n Fresh Scan.EndsToken s.toList fun _ us => ArgumentOf form e us

section

variable {n : Nat} {e f x l r pos key : Node} {xs ys ns : List Node} {form : ArgumentForm}
  {us vs k : List Token} {t : Token} {s w : String} {ss rs : List String}

/-- Some derivation of an argument. -/
lemma ArgumentOf.derives (h : ArgumentOf form e us) :
    ∃ a k e', Derives a (.argument form) us k [e'] := by
  obtain ⟨e', -, h⟩ := h
  have hroom : e.demand < form.room (e.demand + 1) := by
    cases form <;> simp only [ArgumentForm.room] <;> omega
  exact ⟨_, [{ kind := .comma, value := "," }], e', h hroom (.inl rfl)⟩

/-- An argument does not begin with the closing parenthesis. -/
lemma ArgumentOf.head (h : ArgumentOf form e us) (k : List Token) :
    headKind (us ++ k) ≠ .rightParen := by
  obtain ⟨a, k', e', h⟩ := h.derives
  cases form with
  | value | parameter | keyword =>
    obtain ⟨t, ts, rfl, ht⟩ := h.first rfl
    rw [List.cons_append, headKind_cons]
    rintro hk
    rw [hk] at ht
    cases ht

/-- Named arguments begin with the name of the first. -/
lemma Derives.keyword_cases {a : Nat} (h : Derives a (.arguments .keyword) us k ns) :
    (us = [] ∧ ns = []) ∨ (ns ≠ [] ∧ ∀ k, bindingAhead (us ++ k) = true) := by
  cases h with
  | argumentsEnd => exact .inl ⟨rfl, rfl⟩
  | argumentsLast h =>
    cases h with
    | argumentKeyword ht he => exact .inr ⟨by simp, fun k => by simp [bindingAhead, ht, he]⟩
  | argumentsMore h =>
    cases h with
    | argumentKeyword ht he => exact .inr ⟨by simp, fun k => by simp [bindingAhead, ht, he]⟩

lemma Speaks.item (h : Speaks n e s) : SpeaksItem n .value e s := by
  refine ⟨h.text, h.opens, (h.tells.weaken (fun _ hlast _ => hlast) fun _ hk => hk).mono ?_⟩
  intro b us hus
  obtain ⟨e', hsame, he⟩ := hus.phrase.expression
  refine ⟨e', hsame, fun {a k} ha hk => ?_⟩
  have hkinds : endsPhrase (headKind k) = true ∧ headKind k ≠ .assign := by
    rcases hk with hk | hk <;> rw [hk] <;> decide
  rw [ArgumentForm.room] at ha
  obtain ⟨b, rfl⟩ : ∃ b, a = b + 1 := ⟨a - 1, by omega⟩
  exact .argumentValue (he (by omega) e.one_le_level (ends_of_headKind hkinds.1))
    (hus.begins.unbound k hkinds.2)

lemma item_parameter (he : e.Has .identifier [] (some w)) (hw : isName w = true) :
    SpeaksItem n .parameter e w := by
  refine ⟨expression_value he (by simp), opens_of_isName hw, ?_⟩
  refine ((tells_name hw).weaken (fun _ hlast _ => hlast) fun _ hk => hk.word).mono ?_
  rintro b _ ⟨t, rfl, hk, hv, -⟩
  refine ⟨_, he.leaf rfl hv, fun _ h => .argumentName hk ?_⟩
  rcases h with h | h <;> simp [bindingAhead, h]

lemma ArgumentOf.keyword {u : Token} (he : e.Has .keywordArg [l, r] none)
    (hl : l.Has .identifier [] (some t.value)) (ht : t.kind = .identifier) (hu : u.kind = .assign)
    (h : Spoken r false us) : ArgumentOf .keyword e (t :: u :: us) := by
  obtain ⟨r', hsame, hr⟩ := h.phrase.expression
  refine ⟨keywordNode t (lastStop us) r', he.same rfl ?_, fun {a k} ha hk => ?_⟩
  · simp only [Node.allAgree_cons, Node.allAgree_nil, Bool.and_true, Bool.and_eq_true]
    exact ⟨hl.leaf rfl rfl, hsame⟩
  · have hkinds : endsPhrase (headKind k) = true := by
      rcases hk with hk | hk <;> rw [hk] <;> rfl
    rw [ArgumentForm.room, show e.demand = Node.toll [l, r] from he.demand_eq, Node.toll_cons,
      Node.toll_cons] at ha
    obtain ⟨b, rfl⟩ : ∃ b, a = b + 1 := ⟨a - 1, by omega⟩
    exact .argumentKeyword ht hu (hr (by omega) r.one_le_level (ends_of_headKind hkinds))

lemma item_keyword (he : e.Has .keywordArg [l, r] none) (hl : l.Has .identifier [] (some w))
    (hw : isName w = true) (hr : Speaks n r s) : SpeaksItem n .keyword e (w ++ "=" ++ s) := by
  have hequals : Tells n Anywhere Scan.EndsOperator "=".toList (Single .assign "=") :=
    tells_mark (by decide)
  refine ⟨?_, ?_, ?_⟩
  · exact he.expression_keyword (expression_value hl (.inl rfl)) hr.text
  · rw [String.toList_append, String.toList_append, List.append_assoc]
    exact (opens_of_isName hw).append _
  · rw [String.toList_append, String.toList_append]
    have hfirst := (tells_name hw).append hequals (fun _ _ _ _ _ => trivial) fun k _ => by
      rintro x ⟨⟩
      rfl
    have hboth := hfirst.append hr.tells (fun _ us last hus _ _ => by
      obtain ⟨xs, ys, rfl, -, hys⟩ := hus
      rw [lastKind_append, hys.lastKind_eq]
      rfl) fun k _ => (hr.opens.append k).ends
    refine (hboth.weaken (fun _ hlast _ => hlast) fun _ hk => hk).mono ?_
    rintro b _ ⟨_, us, rfl, ⟨_, _, rfl, ⟨t, rfl, ht, rfl, -⟩, u, rfl, hu, -, -⟩, hus⟩
    exact .keyword he hl ht hu hus

/-- A text before the mark and the blank that separate it from another. -/
lemma tells_separated {mark : String} {kind : TokenKind} {S S' : Option TokenKind → Prop}
    {P Q : Bool → List Token → Prop} {v w : List Char}
    (hmark : (mark = "," ∧ kind = .comma) ∨ (mark = ";" ∧ kind = .semicolon))
    (hv : Tells n S Scan.EndsToken v P) (hw : Tells n S' Scan.EndsToken w Q)
    (hS : ∀ last, Fresh last → S' last) :
    Tells n S Scan.EndsToken (v ++ mark.toList ++ ' ' :: w) fun b us =>
      ∃ xs c ys, us = xs ++ c :: ys ∧ P b xs ∧ c.kind = kind ∧ Q true ys := by
  obtain ⟨hmem, hstops, hfresh⟩ : (mark, kind) ∈ TokenKind.operators ∧ Stops mark.toList
      ∧ kind.endsOperand = false := by
    rcases hmark with ⟨rfl, rfl⟩ | ⟨rfl, rfl⟩ <;> exact ⟨by decide, stops_cons rfl rfl, rfl⟩
  have hfirst := hv.append (tells_mark hmem) (fun _ _ _ _ _ => trivial) fun k _ =>
    (hstops.append k).ends
  have hboth := hfirst.append hw.blank (fun _ us last hus _ => hS _ (by
    obtain ⟨xs, ys, rfl, -, hys⟩ := hus
    rw [lastKind_append, hys.lastKind_eq]
    exact hfresh)) fun k _ => (Scan.endsToken_cons (x := ' ') rfl rfl).operator
  refine hboth.mono ?_
  rintro b _ ⟨_, ys, rfl, ⟨xs, _, rfl, hxs, c, rfl, hc, -, -⟩, hys⟩
  exact ⟨xs, c, ys, by simp, hxs, hc, hys⟩

lemma opens_of_forall₂ (hx : List.Forall₂ (SpeaksItem n form) xs ss) :
    ∀ s ∈ ss, Opens s.toList := by
  induction hx with
  | nil => simp
  | cons hx _ ih => exact List.forall_mem_cons.mpr ⟨hx.opens, ih⟩

/-- The tokens `us` are arguments of one form before those of a tail. -/
def ArgumentsOf (form : ArgumentForm) (xs : List Node) (Tail : List Token → Prop)
    (us : List Token) : Prop :=
  ∃ ts vs xs', us = ts ++ vs ∧ Tail vs ∧ Node.allAgree false xs xs' = true
    ∧ ∀ {a : Nat} {k : List Token}, Node.toll xs ≤ form.room a →
      Derives a (.arguments form) ts (vs ++ k) xs'

/-- The tokens are a closing parenthesis. -/
def Closing (us : List Token) : Prop :=
  ∃ c : Token, us = [c] ∧ c.kind = .rightParen

section

variable {Tail : List Token → Prop} {c : Token}

lemma ArgumentsOf.one (h : ArgumentOf form x us) (hvs : Tail vs)
    (hk : ∀ k, headKind (vs ++ k) = .rightParen) : ArgumentsOf form [x] Tail (us ++ vs) := by
  obtain ⟨x', hsame, hx⟩ := h
  refine ⟨us, vs, [x'], rfl, hvs, ?_, fun {a k} ha => ?_⟩
  · rw [Node.allAgree_cons, Node.allAgree_nil, Bool.and_true]
    exact hsame
  · rw [Node.toll_cons] at ha
    exact .argumentsLast (hx (by omega) (.inr (hk k))) (hk k)

lemma ArgumentsOf.cons (h : ArgumentOf form x us) (hc : c.kind = .comma)
    (hk : ∀ k, headKind (vs ++ k) ≠ .rightParen) (hs : ArgumentsOf form xs Tail vs) :
    ArgumentsOf form (x :: xs) Tail (us ++ c :: vs) := by
  obtain ⟨x', hsame, hx⟩ := h
  obtain ⟨ts, ws, xs', rfl, hws, hsames, hxs⟩ := hs
  refine ⟨us ++ c :: ts, ws, x' :: xs', by simp, hws, ?_, fun {a k} ha => ?_⟩
  · rw [Node.allAgree_cons, Bool.and_eq_true]
    exact ⟨hsame, hsames⟩
  · rw [Node.toll_cons] at ha
    have hhead := hk k
    rw [List.append_assoc] at hhead
    exact .argumentsMore (hx (by omega) (.inl hc)) hc hhead (hxs (by omega))

/-- Where no named argument follows, the parentheses close. -/
lemma ArgumentsOf.closing (h : ArgumentsOf .keyword [] Closing us) (k : List Token) :
    headKind (us ++ k) = .rightParen := by
  obtain ⟨ts, _, xs', rfl, ⟨c, rfl, hc⟩, hsame, hts⟩ := h
  cases xs' with
  | cons x xs' => simp [Node.allAgree] at hsame
  | nil =>
    rcases (hts (a := 0) (k := k) (Nat.zero_le _)).keyword_cases with ⟨rfl, -⟩ | ⟨hne, -⟩
    · exact hc
    · exact absurd rfl hne

/-- Named arguments begin with a name that is bound. -/
lemma ArgumentsOf.bindingAhead (h : ArgumentsOf .keyword xs Tail us) (hne : xs ≠ [])
    (k : List Token) : bindingAhead (us ++ k) = true := by
  obtain ⟨ts, vs, xs', rfl, -, hsame, hts⟩ := h
  rcases (hts (k := k) (Nat.le_succ _)).keyword_cases with ⟨-, rfl⟩ | ⟨-, hbind⟩
  · cases xs with
    | nil => exact absurd rfl hne
    | cons x xs => simp [Node.allAgree] at hsame
  · rw [List.append_assoc]
    exact hbind _

/-- Arguments of one form before the text of a tail, which closes the parentheses
or goes on with named arguments. -/
lemma tells_arguments (hx : List.Forall₂ (SpeaksItem n form) xs ss)
    (htail : Tells n (fun last => rs ≠ [] → Fresh last) Scan.EndsToken
      ((Text.join ", " rs).toList ++ ")".toList) fun _ => Tail)
    (hclose : rs = [] → ∀ vs, Tail vs → ∀ k, headKind (vs ++ k) = .rightParen)
    (hbind : rs ≠ [] → form ≠ .keyword ∧ ∀ vs, Tail vs → ∀ k, bindingAhead (vs ++ k) = true) :
    Tells n (fun last => ss ++ rs ≠ [] → Fresh last) Scan.EndsToken
      ((Text.join ", " (ss ++ rs)).toList ++ ")".toList) fun _ us =>
        (ss ++ rs ≠ [] → ∀ k, headKind (us ++ k) ≠ .rightParen) ∧ ArgumentsOf form xs Tail us := by
  induction hx with
  | nil =>
    refine htail.mono fun _ vs hvs => ⟨fun h k hk => ?_, [], vs, [], rfl, hvs, Node.allAgree_nil _,
      fun _ => .argumentsEnd ?_⟩
    · have hb := (hbind h).2 vs hvs k
      rw [StpLang.bindingAhead, hk] at hb
      cases hb
    · by_cases h : rs = []
      · exact .inl (hclose h vs hvs _)
      · exact .inr ⟨(hbind h).1, (hbind h).2 vs hvs _⟩
  | @cons x s xs ss hx hxs ih =>
    by_cases hne : ss ++ rs = []
    · -- the last argument, behind which the parentheses close
      obtain ⟨rfl, rfl⟩ := List.append_eq_nil_iff.mp hne
      cases hxs
      have hboth := hx.tells.append htail (fun _ _ _ _ _ h => absurd rfl h) fun k _ =>
        Scan.endsToken_cons (x := ')') rfl rfl
      refine (hboth.weaken (fun _ h => h (by simp)) fun _ hk => hk).mono ?_
      rintro b _ ⟨us, vs, rfl, hus, hvs⟩
      exact ⟨fun _ k => by rw [List.append_assoc]; exact hus.head _,
        .one hus hvs (hclose rfl vs hvs)⟩
    · have htext : (Text.join ", " (s :: ss ++ rs)).toList ++ ")".toList
          = s.toList ++ ",".toList
            ++ ' ' :: ((Text.join ", " (ss ++ rs)).toList ++ ")".toList) := by
        rw [List.cons_append, join_cons hne]
        simp
      rw [htext]
      have hboth := tells_separated (.inl ⟨rfl, rfl⟩) hx.tells ih fun _ h _ => h
      refine (hboth.weaken (fun _ h => h (by simp)) fun _ hk => hk).mono ?_
      rintro b _ ⟨us, c, _, rfl, hus, hc, hhead, hvs⟩
      exact ⟨fun _ k => by rw [List.append_assoc]; exact hus.head _, .cons hus hc (hhead hne) hvs⟩

end

/-- The tokens between two parentheses are arguments, first those without a name. -/
def Parens (form : ArgumentForm) (xs ys : List Node) (b : Bool) (us : List Token) : Prop :=
  ∃ o c ts vs xs' ys', us = o :: (ts ++ (vs ++ [c])) ∧ o.kind = .leftParen ∧ o.spaced = b
    ∧ c.kind = .rightParen ∧ Node.allAgree false xs xs' = true ∧ Node.allAgree false ys ys' = true
    ∧ ∀ {a : Nat} {k : List Token}, Node.toll xs ≤ form.room a → Node.toll ys ≤ a + 1 →
      Derives a (.arguments form) ts (vs ++ c :: k) xs'
        ∧ Derives a (.arguments .keyword) vs (c :: k) ys'

lemma ArgumentsOf.parens {o : Token} (ho : o.kind = .leftParen)
    (h : ArgumentsOf form xs (ArgumentsOf .keyword ys Closing) us) :
    Parens form xs ys o.spaced (o :: us) := by
  obtain ⟨ts, _, xs', rfl, ⟨vs, _, ys', rfl, ⟨c, rfl, hc⟩, hys', hvs⟩, hxs', hts⟩ := h
  refine ⟨o, c, ts, vs, xs', ys', rfl, ho, rfl, hc, hxs', hys', fun {a k} hx hy => ?_⟩
  have hfirst := hts (k := k) hx
  rw [List.append_assoc, List.singleton_append] at hfirst
  exact ⟨hfirst, hvs hy⟩

/-- Arguments between parentheses. -/
lemma tells_parens (hform : form ≠ .keyword) (hx : List.Forall₂ (SpeaksItem n form) xs ss)
    (hy : List.Forall₂ (SpeaksItem n .keyword) ys rs) :
    Tells n Anywhere Scan.EndsToken ("(" ++ Text.join ", " (ss ++ rs) ++ ")").toList
      (Parens form xs ys) := by
  have hopen : Tells n Anywhere Scan.EndsOperator "(".toList (Single .leftParen "(") :=
    tells_mark (by decide)
  have hclose : Tells n Anywhere Scan.EndsOperator ")".toList (Single .rightParen ")") :=
    tells_mark (by decide)
  have hempty : ys = [] ↔ rs = [] := by cases hy <;> simp
  have hend : Tells n (fun last => ([] : List String) ≠ [] → Fresh last) Scan.EndsToken
      ((Text.join ", " []).toList ++ ")".toList) fun _ => Closing :=
    (hclose.weaken (fun _ _ => trivial) fun _ hk => hk.operator).mono
      fun _ _ ⟨c, hvs, hc, _⟩ => ⟨c, hvs, hc⟩
  have hkeyword := tells_arguments hy hend (by rintro - _ ⟨c, rfl, hc⟩ k; exact hc) (by simp)
  rw [List.append_nil] at hkeyword
  have hall := tells_arguments hx (hkeyword.mono fun _ _ hvs => hvs.2)
    (fun hrs vs hvs => by
      obtain rfl := hempty.mpr hrs
      exact hvs.closing)
    fun hrs => ⟨hform, fun vs hvs => hvs.bindingAhead fun h => hrs (hempty.mp h)⟩
  have hopens : Opens ((Text.join ", " (ss ++ rs)).toList ++ ")".toList) := by
    cases hsr : ss ++ rs with
    | nil => exact opens_cons rfl
    | cons s ts =>
      refine (opens_join ?_).append _
      have hs : s ∈ ss ++ rs := by rw [hsr]; exact List.mem_cons_self
      rcases List.mem_append.mp hs with hs | hs
      · exact opens_of_forall₂ hx s hs
      · exact opens_of_forall₂ hy s hs
  rw [String.toList_append, String.toList_append, List.append_assoc]
  have hboth := hopen.append hall
    (fun _ us last hus _ _ => by rw [hus.lastKind_eq]; rfl) fun k _ => (hopens.append k).ends
  refine hboth.mono ?_
  rintro b _ ⟨_, us, rfl, ⟨o, rfl, ho, -, rfl⟩, -, hus⟩
  exact hus.parens ho

/-! ### Calls -/

lemma texts_of_forall₂ (hx : List.Forall₂ (SpeaksItem n form) xs ss) : texts xs = .ok ss := by
  induction hx with
  | nil => exact texts_nil
  | cons hx _ ih => exact texts_cons hx.text ih

lemma NameSpoken.call {b : Bool} (he : e.Has .call [f, pos, key] none)
    (hpos : pos.Has .positionalArgs xs none) (hkey : key.Has .keywordArgs ys none)
    (h : NameSpoken f b us) (hs : Parens .value xs ys false vs) : Spoken e b (us ++ vs) := by
  obtain ⟨o, c, ts, vs, xs', ys', rfl, ho, hos, hc, hxs', hys', hargs⟩ := hs
  obtain ⟨f', hsame, hname⟩ := h.name
  refine .of_operand (h.begins.append (by rw [headKind_cons, ho]; decide) (by simp))
    (fun l => ?_) ?_
  · simp [lastKind, hc, TokenKind.endsOperand]
  · refine operandOf (x := callNode f' o c xs' ys') (he.same rfl ?_) fun {a m k} ha _ _ => ?_
    · simp only [Node.allAgree_cons, Node.allAgree_nil, Bool.and_true, Bool.and_eq_true]
      exact ⟨hsame, hpos.same rfl hxs', hkey.same rfl hys'⟩
    · rw [show e.demand = max 1 (Node.toll [f, pos, key]) from he.demand_eq, Node.toll_cons,
        Node.toll_cons, Node.toll_cons, show pos.demand = Node.toll xs from hpos.demand_eq,
        show key.demand = Node.toll ys - 1 from hkey.demand_eq] at ha
      obtain ⟨b, rfl⟩ : ∃ b, a = b + 1 := ⟨a - 1, by omega⟩
      obtain ⟨hts, hvs⟩ := hargs (a := b) (k := k) (by rw [ArgumentForm.room]; omega) (by omega)
      refine .call (hname ?_) ?_ hts hvs hc
      · simp [dotAhead, ho]
      · simp [callAhead, headSpaced, ho, hos]

lemma SpeaksName.call (he : e.Has .call [f, pos, key] none) (hpos : pos.Has .positionalArgs xs none)
    (hkey : key.Has .keywordArgs ys none) (hf : SpeaksName n f s)
    (hx : List.Forall₂ (SpeaksItem n .value) xs ss)
    (hy : List.Forall₂ (SpeaksItem n .keyword) ys rs) :
    Speaks n e (s ++ ("(" ++ Text.join ", " (ss ++ rs) ++ ")")) := by
  have hmod : e.beginsWithMod = f.beginsWithMod := he.beginsWithMod_first (by simp)
  refine ⟨?_, ?_, ?_⟩
  · rw [he.expression_call hf.text (hpos.children ▸ texts_of_forall₂ hx)
      (hkey.children ▸ texts_of_forall₂ hy), String.append_assoc, String.append_assoc,
      String.append_assoc]
  · rw [String.toList_append]
    exact hf.opens.append _
  · rw [String.toList_append]
    have hboth := hf.tells.append (tells_parens (by decide) hx hy) (fun _ _ _ _ _ => trivial)
      fun k _ => by
        rw [String.toList_append, String.toList_append, List.append_assoc]
        exact Scan.endsToken_cons rfl rfl
    refine (hboth.weaken (fun last hlast hf => hlast (hmod.trans hf)) fun _ hk => hk).mono ?_
    rintro b _ ⟨us, vs, rfl, hus, hvs⟩
    exact hus.call he hpos hkey hvs

/-! ### Matrices -/

/-- Tokens behind white space that begin an element do not carry on the one before
them. -/
lemma Begins.ends {least : Nat} (h : Begins true us) (k : List Token) :
    Ends least true (us ++ k) ∧ headKind (us ++ k) ≠ .comma := by
  obtain ⟨t, ts, rfl, hs, hk⟩ := h.head
  have hkinds : t.kind ≠ .ellipsis ∧ t.kind ≠ .comma := by
    constructor <;> rintro ht <;> rw [ht] at hk <;> cases hk
  refine ⟨⟨⟨?_, ?_, hkinds.1⟩, ?_, operatorAhead_mono (h.starts rfl k) (Nat.zero_le _)⟩, hkinds.2⟩
  · simp [dotAhead, headSpaced, hs]
  · simp [callAhead, headSpaced, hs]
  · simp [suffixAhead, headSpaced, hs]

/-- The tokens form the elements of a matrix row. -/
structure ElementsOf (xs : List Node) (b : Bool) (us : List Token) : Prop where
  begins : Begins b us
  elements : ∃ xs', Node.allAgree false xs xs' = true ∧ ∀ {a : Nat} {k : List Token},
    Node.toll xs ≤ a → headKind k = .semicolon ∨ headKind k = .rightBracket →
      Derives a .elements us k xs'

lemma ElementsOf.one {b : Bool} (h : Spoken x b us) : ElementsOf [x] b us := by
  obtain ⟨x', hsame, hx⟩ := h.phrase.expression
  refine ⟨h.begins, [x'], ?_, fun {a k} ha hk => ?_⟩
  · rw [Node.allAgree_cons, Node.allAgree_nil, Bool.and_true]
    exact hsame
  · have hkinds : endsPhrase (headKind k) = true ∧ Grammar.endsRow (headKind k) = true
        ∧ headKind k ≠ .comma := by
      rcases hk with hk | hk <;> rw [hk] <;> decide
    rw [Node.toll_cons] at ha
    obtain ⟨b, rfl⟩ : ∃ b, a = b + 1 := ⟨a - 1, by omega⟩
    have hlast : Derives (b + 1) (.expression 1 true) us ([] ++ k) [x'] :=
      hx (by omega) x.one_le_level (ends_of_headKind hkinds.1)
    have hrow := Derives.elementsMore hlast hkinds.2.2 (.elementsEnd hkinds.2.1)
    rwa [List.append_nil] at hrow

lemma ElementsOf.cons {b : Bool} (h : Spoken x b us) (hs : ElementsOf xs true vs) :
    ElementsOf (x :: xs) b (us ++ vs) := by
  obtain ⟨x', hsame, hx⟩ := h.phrase.expression
  obtain ⟨xs', hsames, hxs⟩ := hs.elements
  have hne : headKind vs ≠ .assign ∧ vs ≠ [] := by
    obtain ⟨v, ws, rfl, -, hk⟩ := hs.begins.head
    refine ⟨fun ht => ?_, by simp⟩
    rw [headKind_cons] at ht
    rw [ht] at hk
    cases hk
  refine ⟨h.begins.append hne.1 hne.2, x' :: xs', ?_, fun {a k} ha hk => ?_⟩
  · rw [Node.allAgree_cons, Bool.and_eq_true]
    exact ⟨hsame, hsames⟩
  · obtain ⟨hends, hcomma⟩ : Ends 1 true (vs ++ k) ∧ headKind (vs ++ k) ≠ .comma :=
      hs.begins.ends k
    rw [Node.toll_cons] at ha
    obtain ⟨b, rfl⟩ : ∃ b, a = b + 1 := ⟨a - 1, by omega⟩
    exact .elementsMore (hx (by omega) x.one_le_level hends) hcomma (hxs (by omega) hk)

/-- The elements of a row are read as they are written when none but the first
begins with `mod`. -/
lemma tells_elements (hx : Speaks n x s) (hxs : List.Forall₂ (Speaks n) xs ss)
    (hmod : ∀ y ∈ xs, y.beginsWithMod = false) :
    Tells n (fun last => x.beginsWithMod = true → Fresh last) Scan.EndsToken
      (Text.join " " (s :: ss)).toList (ElementsOf (x :: xs)) := by
  induction hxs generalizing x s with
  | nil => exact hx.tells.mono fun b us hus => .one hus
  | @cons y t xs ss hy hxs ih =>
    rw [List.forall_mem_cons] at hmod
    have htext : (Text.join " " (s :: t :: ss)).toList
        = s.toList ++ ' ' :: (Text.join " " (t :: ss)).toList := by
      rw [join_cons (by simp)]
      simp
    rw [htext]
    have hboth := hx.tells.append (ih hy hmod.2).blank
      (fun _ _ _ _ _ h => by rw [hmod.1] at h; cases h) fun k _ => Scan.endsToken_cons rfl rfl
    refine hboth.mono ?_
    rintro b _ ⟨us, vs, rfl, hus, hvs⟩
    exact .cons hus hvs

/-- The text of a row of a matrix is read as the row. -/
def SpeaksRow (n : Nat) (kind : Kind) (row : Node) (s : String) : Prop :=
  ∃ x xs t ts, row.Has kind (x :: xs) none ∧ Speaks n x t ∧ List.Forall₂ (Speaks n) xs ts
    ∧ (∀ y ∈ xs, y.beginsWithMod = false) ∧ s = Text.join " " (t :: ts)

lemma SpeaksRow.opens {kind : Kind} (h : SpeaksRow n kind x s) : Opens s.toList := by
  obtain ⟨x, xs, t, ts, -, hx, -, -, rfl⟩ := h
  exact opens_join hx.opens

lemma SpeaksRow.texts_eq {kind : Kind} (h : SpeaksRow n kind x s) :
    ∃ ts, texts x.children = .ok ts ∧ s = Text.join " " ts := by
  obtain ⟨y, ys, t, ts, hrow, hy, hys, -, rfl⟩ := h
  have htexts : texts ys = .ok ts := by
    clear hrow
    induction hys with
    | nil => exact texts_nil
    | cons hy _ ih => exact texts_cons hy.text ih
  rw [hrow.children]
  exact ⟨t :: ts, texts_cons hy.text htexts, rfl⟩

/-- The tokens of a row and the elements that they form. -/
lemma SpeaksRow.tells {kind : Kind} (hkind : kind = .matrixRow ∨ kind = .lastRow)
    (h : SpeaksRow n kind x s) :
    Tells n Fresh Scan.EndsToken s.toList fun _ us => ∃ t ts y ys, us = t :: ts
      ∧ (∀ {p : Place} {q : Nat}, kind.labels x.children.length = [] →
        x.sameStructure (.spanning kind p q (y :: ys)) = true)
      ∧ ∀ {a : Nat} {k : List Token}, x.demand ≤ a →
        headKind k = .semicolon ∨ headKind k = .rightBracket →
          Derives a .elements (t :: ts) k (y :: ys) := by
  obtain ⟨y, ys, t, ts, hrow, hy, hys, hmod, rfl⟩ := h
  refine ((tells_elements hy hys hmod).weaken (fun _ hlast _ => hlast) fun _ hk => hk).mono ?_
  rintro b us ⟨hbegins, zs, hsame, hzs⟩
  obtain ⟨u, us, rfl, -, -⟩ := hbegins.head
  cases zs with
  | nil => simp [Node.allAgree] at hsame
  | cons z zs =>
    refine ⟨u, us, z, zs, rfl, fun hlabels => hrow.same ?_ hsame, fun {a k} ha hk => ?_⟩
    · rwa [hrow.children] at hlabels
    · have hdemand : x.demand = Node.toll (y :: ys) := by
        rw [hrow.demand_eq]
        rcases hkind with rfl | rfl <;> rfl
      exact hzs (by omega) hk

/-- The tokens form the rows of a matrix. -/
def RowsOf (xs : List Node) (us : List Token) : Prop :=
  ∃ ms, Node.allAgree false xs ms = true ∧ ∀ {a : Nat} {k : List Token},
    Node.toll xs ≤ a + 1 → headKind k = .rightBracket → Derives a .rows us k ms

/-- The rows of a matrix are read as they are written. -/
lemma tells_rows (hrows : List.Forall₂ (SpeaksRow n .matrixRow) xs ss)
    (hlast : SpeaksRow n .lastRow x s) :
    Tells n Fresh Scan.EndsToken (Text.join "; " (ss ++ [s])).toList fun _ =>
      RowsOf (xs ++ [x]) := by
  induction hrows with
  | nil =>
    refine (hlast.tells (.inr rfl)).mono ?_
    rintro b _ ⟨t, ts, y, ys, rfl, hsame, h⟩
    refine ⟨[_], ?_, fun {a k} ha hk => .rowsLast (h ?_ (.inr hk)) rfl hk⟩
    · rw [List.nil_append, Node.allAgree_cons, Node.allAgree_nil, Bool.and_true]
      exact hsame rfl
    · rw [List.nil_append, Node.toll_cons] at ha
      omega
  | @cons row s' xs ss hrow _ ih =>
    have htext : (Text.join "; " (s' :: ss ++ [s])).toList
        = s'.toList ++ ";".toList ++ ' ' :: (Text.join "; " (ss ++ [s])).toList := by
      rw [List.cons_append, join_cons (by simp)]
      simp
    rw [htext]
    refine (tells_separated (.inr ⟨rfl, rfl⟩) (hrow.tells (.inl rfl)) ih fun _ h => h).mono ?_
    rintro b _ ⟨_, c, us, rfl, ⟨t, ts, y, ys, rfl, hsame, h⟩, hc, ms, hms, hrows⟩
    refine ⟨.spanning .matrixRow t.place c.stop (y :: ys) :: ms, ?_, fun {a k} ha hk => ?_⟩
    · rw [List.cons_append, Node.allAgree_cons, Bool.and_eq_true]
      exact ⟨hsame rfl, hms⟩
    · rw [List.cons_append, Node.toll_cons] at ha
      exact .rowsMore (h (by omega) (.inl hc)) (by simp) hc (hrows (by omega) hk)

lemma rowTexts_of_forall₂ (hrows : List.Forall₂ (SpeaksRow n .matrixRow) xs ss)
    (hlast : SpeaksRow n .lastRow x s) : rowTexts (xs ++ [x]) = .ok (ss ++ [s]) := by
  induction hrows with
  | nil =>
    obtain ⟨ts, hts, rfl⟩ := hlast.texts_eq
    exact rowTexts_cons hts rowTexts_nil
  | cons h _ ih =>
    obtain ⟨ts, hts, rfl⟩ := h.texts_eq
    exact rowTexts_cons hts ih

lemma spoken_matrix {o c : Token} (he : e.Has .matrix xs none) (ho : o.kind = .leftBracket)
    (hc : c.kind = .rightBracket) (h : RowsOf xs us) : Spoken e o.spaced (o :: (us ++ [c])) := by
  obtain ⟨ms, hms, hus⟩ := h
  refine .of_operand (begins_of_kind (by rw [ho]; rfl) (by rw [ho]; decide)) (fun l => ?_) ?_
  · simp [lastKind, hc, TokenKind.endsOperand]
  · refine operandOf (x := .spanning .matrix o.place c.stop ms) (he.same rfl hms)
      fun {a m k} ha _ _ => ?_
    rw [show e.demand = max 1 (Node.toll xs) from he.demand_eq] at ha
    obtain ⟨b, rfl⟩ : ∃ b, a = b + 1 := ⟨a - 1, by omega⟩
    exact .matrix ho (hus (by omega) hc) hc

lemma speaks_matrix (he : e.Has .matrix (xs ++ [x]) none)
    (hrows : List.Forall₂ (SpeaksRow n .matrixRow) xs ss) (hlast : SpeaksRow n .lastRow x s) :
    Speaks n e ("[" ++ Text.join "; " (ss ++ [s]) ++ "]") := by
  have hopen : ("[", TokenKind.leftBracket) ∈ TokenKind.operators := by decide
  have hclose : ("]", TokenKind.rightBracket) ∈ TokenKind.operators := by decide
  have hopens : Opens (Text.join "; " (ss ++ [s])).toList := by
    cases hrows with
    | nil => exact opens_join hlast.opens
    | cons h => exact opens_join h.opens
  refine ⟨?_, ?_, ?_⟩
  · exact he.expression_matrix (rowTexts_of_forall₂ hrows hlast)
  · rw [String.toList_append, String.toList_append, List.append_assoc]
    exact opens_cons rfl
  · rw [String.toList_append, String.toList_append]
    have htold := tells_enclosed hopen rfl hclose (fun _ => Scan.endsToken_cons rfl rfl) hopens
      (tells_rows hrows hlast) fun _ hlast => hlast
    refine (htold.weaken (fun _ _ => trivial) fun _ hk => hk).mono ?_
    rintro b _ ⟨o, us, c, rfl, ho, rfl, hc, hus⟩
    exact spoken_matrix he ho hc hus

end

end StpLang
