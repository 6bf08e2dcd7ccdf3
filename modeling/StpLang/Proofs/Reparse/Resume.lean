import StpLang.Proofs.Reparse.Boundary
import StpLang.Proofs.Reparse.Kept

/-!
Reading on behind a separator.

The tokens behind a separator are prepared alike whether they follow it or stand
at the beginning. They end at the end of the text, and the comments behind the
separator can be told from those before it by where they stop.

* `settle_behind` prepares the tokens behind a separator.
* `stop_of_loopEnds`: a program ends where its text does.
* `filter_comments` keeps the comments before the separator.
-/

namespace StpLang

open Lexer StpLang.Parser

section

variable {limit : Int} {x u : Token} {ts us vs k : List Token} {s s' t : Parser}

/-! ### Preparing tokens -/

/-- Behind a separator, tokens are prepared as at the beginning of a text. -/
lemma settle_behind (hx : x.kind.isSeparator = true) (u : Token) (us : List Token) (b : Bool) :
    Alike (settle 0 (some x.kind) (u :: us)).1 (settle 0 none ({ u with spaced := b } :: us)).1
      ∧ (settle 0 none ({ u with spaced := b } :: us)).2 = (settle 0 (some x.kind) (u :: us)).2 := by
  have hends : x.kind.endsOperand = false := by
    generalize x.kind = kind at hx
    cases kind <;> first | rfl | cases hx
  rw [settle_cons, settle_cons]
  by_cases hmod : u.kind = .mod
  · have hold : keptToken? 0 (some x.kind) u = some { u with kind := .identifier } := by
      simp [keptToken?, hmod, hends]
    have hnew : keptToken? 0 none { u with spaced := b }
        = some { u with kind := .identifier, spaced := b } := by
      simp [keptToken?, hmod]
    rw [hold, hnew]
    exact ⟨.cons { u with kind := .identifier } b _, rfl⟩
  · have hold : keptToken? 0 (some x.kind) u = some u := by simp [keptToken?, hmod]
    have hnew : keptToken? 0 none { u with spaced := b } = some { u with spaced := b } := by
      simp [keptToken?, hmod]
    rw [hold, hnew]
    exact ⟨.cons u b _, rfl⟩

/-- Preparation keeps the end mark, and adds none. -/
lemma settle_last (depth : Nat) (last : Option TokenKind) (hu : u.kind = .eof)
    (hus : ∀ v ∈ us, v.kind ≠ .eof) :
    ∃ vs, (settle depth last (us ++ [u])).1 = vs ++ [u] ∧ ∀ v ∈ vs, v.kind ≠ .eof := by
  refine ⟨(settle depth last us).1, ?_, ?_⟩
  · rw [settle_append, settle_cons]
    simp [keptToken?, hu, settle]
  · induction us generalizing depth last with
    | nil => simp [settle]
    | cons v vs ih =>
      rw [List.forall_mem_cons] at hus
      rw [settle_cons]
      cases hk : keptToken? depth last v with
      | none => exact ih depth last hus.2
      | some w =>
        refine List.forall_mem_cons.mpr ⟨?_, ih _ _ hus.2⟩
        rcases keptToken?_some hk with rfl | ⟨-, rfl⟩
        · exact hus.1
        · exact TokenKind.noConfusion

/-! ### The end of the text -/

/-- The end mark depends on the last token only. -/
lemma eof_of_alike (hs : s.rest = ts ++ k) (hk : Alike k s'.rest) (hne : k ≠ []) :
    s'.eof = s.eof := by
  unfold Parser.eof
  rw [hs]
  generalize hr : s'.rest = rest at hk
  cases hk with
  | nil => exact absurd rfl hne
  | cons t b us =>
    cases us with
    | nil => simp
    | cons v vs =>
      obtain ⟨w, hw⟩ := Option.isSome_iff_exists.mp (List.getLast?_isSome.mpr (List.cons_ne_nil v vs))
      simp [hw]

/-- The statements of a program go on to the end mark, where the text ends. -/
lemma stop_of_loopEnds {es : List Error} {cs : List Node} (hs : s.rest = vs ++ [u])
    (hvs : ∀ v ∈ vs, v.kind ≠ .eof) (hm : Moves s t ts es cs) (he : LoopEnds none t) :
    t.current.stop = u.stop := by
  have hrest := hm.rest.symm.trans hs
  have hkind : t.current.kind = .eof := he.2.resolve_right fun h => by cases h
  cases ht : t.rest with
  | nil =>
    have hcur : t.current = s.eof := by
      rw [Parser.current, ht]
      exact hm.eof
    rw [hcur, Parser.eof, hs]
    simp [Token.eofAt]
  | cons v ws =>
    rw [Parser.current, ht] at hkind ⊢
    rw [ht] at hrest
    -- an end mark is the last token
    rcases List.eq_nil_or_concat ws with rfl | ⟨ws', w, rfl⟩
    · obtain rfl : v = u := by simpa using (List.append_inj' hrest rfl).2
      rfl
    · rw [List.concat_eq_append, ← List.cons_append, ← List.append_assoc] at hrest
      have hmem := (List.append_inj' hrest rfl).1
      exact absurd hkind (hvs v (by rw [← hmem]; simp))

/-! ### Comments -/

/-- The node takes up some of the text between two offsets. -/
def Node.Lies (lo hi : Nat) (n : Node) : Prop := lo ≤ n.start ∧ n.start < n.stop ∧ n.stop ≤ hi

variable {lo hi : Nat}

lemma settle_comments (h : ∀ t ∈ ts, t.Placed lo hi) (depth : Nat) (last : Option TokenKind) :
    ∀ n ∈ (settle depth last ts).2, n.Lies lo hi := by
  induction ts generalizing depth last with
  | nil => simp [settle]
  | cons t ts ih =>
    rw [List.forall_mem_cons] at h
    rw [settle_cons]
    cases hk : keptToken? depth last t with
    | none =>
      have hc := keptToken?_none hk
      refine List.forall_mem_cons.mpr ⟨⟨h.1.low, h.1.extent ?_, h.1.high⟩, ih h.2 _ _⟩
      rw [hc]
      exact TokenKind.noConfusion
    | some v => exact ih h.2 _ _

lemma snippet_comments (h : ∀ t ∈ ts, t.Placed lo hi) :
    ∀ n ∈ ts.flatMap Token.snippetComments, n.Lies lo hi := by
  intro n hn
  obtain ⟨t, ht, hn⟩ := List.mem_flatMap.mp hn
  have hplaced := h t ht
  unfold Token.snippetComments at hn
  split at hn
  · obtain ⟨seg, hseg, hn⟩ := List.mem_flatMap.mp hn
    split at hn
    · rename_i tokens hform
      obtain ⟨h1, h2, h3⟩ := settle_comments (hplaced.snippets hseg hform) 0 none n hn
      exact ⟨Nat.le_trans hplaced.low h1, h2, Nat.le_trans h3 hplaced.high⟩
    · cases hn
  · cases hn

/-- The comments that stop before an offset are those before it. -/
lemma filter_comments {r : Nat} {as bs cs ds : List Node} (ha : ∀ n ∈ as, n.Lies lo r)
    (hb : ∀ n ∈ bs, n.Lies r hi) (hc : ∀ n ∈ cs, n.Lies lo r) (hd : ∀ n ∈ ds, n.Lies r hi) :
    ((as ++ bs) ++ (cs ++ ds)).filter (·.stop ≤ r) = as ++ cs := by
  have hall {ns : List Node} (h : ∀ n ∈ ns, n.Lies lo r) : ns.filter (·.stop ≤ r) = ns :=
    List.filter_eq_self.mpr fun n hn => decide_eq_true (h n hn).2.2
  have hnone {ns : List Node} (h : ∀ n ∈ ns, n.Lies r hi) : ns.filter (·.stop ≤ r) = [] := by
    refine List.filter_eq_nil_iff.mpr fun n hn => ?_
    have := h n hn
    rw [decide_eq_true_eq]
    have := this.1
    have := (h n hn).2.1
    omega
  simp only [List.filter_append, hall ha, hnone hb, hall hc, hnone hd, List.append_nil]

end

end StpLang
