import StpLang.Proofs.Bookkeeping
import StpLang.Proofs.Render.Parsed
import StpLang.Proofs.Render.Sheet

/-!
Programs shown one below another.

An emitter of program text or of outlines keeps the lines that it has collected. A program
adds to them the lines that it has by itself, and no block is open behind it, so that the
text of several programs is put together from their texts. The same holds of the
statements of one program.

* `Emitter.Ready` is what each program leaves behind. `Emitter.Ready.add` shows one program
  and `Emitter.Ready.addAll` several.
* `Tree.Made.render_eq` puts the text of a program together from those of its statements.
* `emitted_one_by_one` states the main result.
-/

namespace StpLang

open Source

/-! ### The text of lines -/

/-- The text of lines, each of which ends with a line feed. -/
def Text.ofLines (ls : List String) : String := String.join (ls.map (· ++ "\n"))

lemma Text.ofLines_append (ls ms : List String) :
    ofLines (ls ++ ms) = ofLines ls ++ ofLines ms := by
  rw [ofLines, List.map_append, String.join_append, ofLines, ofLines]

lemma Text.ofLines_flatten (lss : List (List String)) :
    ofLines lss.flatten = String.join (lss.map ofLines) := by
  induction lss with
  | nil => rfl
  | cons ls lss ih => rw [List.flatten_cons, ofLines_append, ih, List.map_cons, String.join_cons]

lemma Source.Sheet.output_extend (s : Sheet) (ls : List String) :
    (s.extend ls).output = s.output ++ Text.ofLines ls := by
  have hlines : (s.extend ls).output = Text.ofLines (s.lines.reverse ++ ls) := by
    simp [Sheet.output, Sheet.extend, Text.ofLines]
  rw [hlines, Text.ofLines_append]
  rfl

/-! ### Emitters -/

namespace Emitter

/-- Shows programs one below another. -/
def addAll (e : Emitter) (ts : List Tree) : Except RenderFault Emitter := ts.foldlM add e

/-- The emitter shows a program as a text. -/
def Shows (e : Emitter) (t : Tree) (text : String) : Prop :=
  ∃ e', e.add t = .ok e' ∧ e'.output = text

/-- An emitter that collects lines as the fresh one does, with no block around the next
line. -/
inductive Ready : (fresh : Emitter) → Emitter → Prop
  | source {s : Sheet} (h : s.indent = 0) : Ready (.source {}) (.source s)
  | outline {ls : List String} : Ready (.outline []) (.outline ls)

section

variable {form : Target} {fresh e : Emitter} {s : Sheet} {t : Tree} {ts : List Tree}
  {ls : List String} {text : String} {texts : List String}

/-- A program adds the lines of its statements. -/
lemma add_source (h : linesOf (statements t.root.children) s.indent = .ok ls) :
    (source s).add t = .ok (.source (s.extend ls)) := by
  show source <$> (statements t.root.children s >>= _) = _
  rw [(appends_statements _).run h]
  rfl

lemma add_source_inv (h : (source s).add t = .ok e) :
    ∃ ls, linesOf (statements t.root.children) s.indent = .ok ls
      ∧ e = .source (s.extend ls) := by
  cases hls : linesOf (statements t.root.children) s.indent with
  | ok ls =>
    rw [add_source hls] at h
    exact ⟨ls, rfl, (Except.ok.inj h).symm⟩
  | error fault =>
    have hfails : statements t.root.children s = .error fault := by
      rw [appends_statements _ s, hls]
      rfl
    replace h : source <$> (statements t.root.children s >>= _) = .ok e := h
    rw [hfails] at h
    cases h

lemma ready_start (h : form ≠ .json) : (start form).Ready (start form) := by
  cases form with
  | stp | source => exact .source rfl
  | tree => exact .outline
  | json => exact absurd rfl h

/-- Nothing has been shown at first. -/
lemma output_start (h : form ≠ .json) : (start form).output = "" := by
  cases form with
  | stp | source | tree => rfl
  | json => exact absurd rfl h

/-- Programs are shown as one text each. -/
lemma shows_unique {texts' : List String} (h : List.Forall₂ fresh.Shows ts texts)
    (h' : List.Forall₂ fresh.Shows ts texts') : texts = texts' := by
  refine List.right_unique_forall₂' (fun t text text' hs hs' => ?_) h h'
  obtain ⟨e, hadd, rfl⟩ := hs
  obtain ⟨e', hadd', rfl⟩ := hs'
  rw [Except.ok.inj (hadd.symm.trans hadd')]

/-- A program adds the text that a fresh emitter shows for it. -/
lemma Ready.add (he : Ready fresh e) (h : fresh.Shows t text) :
    ∃ e', e.add t = .ok e' ∧ Ready fresh e' ∧ e'.output = e.output ++ text := by
  obtain ⟨alone, hadd, rfl⟩ := h
  cases he with
  | outline =>
    cases hadd
    exact ⟨_, rfl, .outline, Text.ofLines_append _ _⟩
  | @source s hs =>
    obtain ⟨ls, hls, rfl⟩ := add_source_inv hadd
    -- the fresh sheet is at the margin too, so the lines are the same on both
    rw [← hs] at hls
    refine ⟨_, add_source hls, .source hs, ?_⟩
    show (s.extend ls).output = s.output ++ (Sheet.extend {} ls).output
    rw [Sheet.output_extend, Sheet.output_extend]
    rfl

/-- Programs add the texts that fresh emitters show for them. -/
lemma Ready.addAll (he : Ready fresh e) (h : List.Forall₂ fresh.Shows ts texts) :
    ∃ e', e.addAll ts = .ok e' ∧ Ready fresh e' ∧ e'.output = e.output ++ String.join texts := by
  induction h generalizing e with
  | nil => exact ⟨e, rfl, he, String.append_empty.symm⟩
  | cons ht _ ih =>
    obtain ⟨e', hadd, hready, houtput⟩ := he.add ht
    obtain ⟨e'', hrest, hready', houtput'⟩ := ih hready
    refine ⟨e'', ?_, hready', ?_⟩
    · rw [Emitter.addAll, List.foldlM_cons, hadd]
      exact hrest
    · rw [houtput', houtput, String.append_assoc, String.join_cons]

end

end Emitter

/-! ### Programs and their statements -/

lemma isRoot_of_isEntry {k : Kind} (h : k.isEntry = true) : isRoot k = true := by
  cases k <;> first | rfl | cases h

section

variable {t : Tree} {n : Node} {ls : List String}

/-- The text of a tree has the lines that its root writes. -/
lemma render_of_lines (hk : isRoot t.root.kind = true)
    (h : linesOf (statement t.root) 0 = .ok ls) :
    Target.stp.render t = .ok (Text.ofLines ls) := by
  rw [Target.render_of_isRoot rfl hk ((appends_statement _).run h), Sheet.output_extend]
  exact congrArg Except.ok String.empty_append

namespace Tree.Made

/-- The statements of a program have lines. -/
lemma exists_statements (h : t.Made) :
    ∃ lss, List.Forall₂ (fun n ls => isRoot n.kind = true ∧ linesOf (statement n) 0 = .ok ls)
      t.root.children lss := by
  have hentries := h.formed.2.entries h.formed.1
  refine exists_forall₂ fun n hn => ?_
  have hentry : n.kind.isEntry = true := hentries.many n hn
  obtain ⟨ls, hls⟩ := ((hentries.formed n hn).writable hentry).exists_lines 0
  exact ⟨ls, isRoot_of_isEntry hentry, hls⟩

/-- A program can be shown on a fresh emitter. -/
lemma exists_shown (h : t.Made) (form : Target) : ∃ text, (Emitter.start form).Shows t text := by
  cases form with
  | stp | source =>
    obtain ⟨lss, hlss⟩ := h.exists_statements
    exact ⟨_, _, Emitter.add_source (linesOf_statements (hlss.imp fun _ _ hls => hls.2)), rfl⟩
  | tree | json => exact ⟨_, _, rfl, rfl⟩

/-- The text of a program is put together from those of its statements. -/
lemma render_eq (h : t.Made) :
    ∃ texts, List.Forall₂ (fun n text => Target.stp.render (.ofNode n) = .ok text)
        t.root.children texts
      ∧ Target.stp.render t = .ok (String.join texts) := by
  obtain ⟨lss, hlss⟩ := h.exists_statements
  refine ⟨lss.map Text.ofLines, ?_, ?_⟩
  · exact List.forall₂_map_right_iff.mpr (hlss.imp fun n _ hls => render_of_lines hls.1 hls.2)
  · have hk := h.formed.1
    rw [← Text.ofLines_flatten]
    refine render_of_lines (by rw [hk]; rfl) ?_
    rw [linesOf, run_sourceFile hk]
    exact linesOf_statements (hlss.imp fun _ _ hls => hls.2)

end Tree.Made

end

/-- **Programs are shown one by one.** Some trees have been read or edited, with recovery or
without it. An emitter of program text or of outlines which is given all of them shows the
texts that fresh ones show for each, one after another, and after each of them the next
line of a program stands at the margin again.

The text of each of these programs is that of its statements one after another. Below
whatever stands on a sheet, each statement in these programs adds the lines that it has by
itself at this indentation. In those of an `if`, the header of a clause continues the
closing brace of the block before it (`Source.clauseLines`). -/
theorem emitted_one_by_one {ts : List Tree} (h : ∀ t ∈ ts, t.Made) :
    (∀ form : Target, form ≠ .json → ∃ texts e,
        List.Forall₂ (Emitter.start form).Shows ts texts
          ∧ (Emitter.start form).addAll ts = .ok e ∧ e.output = String.join texts)
    ∧ (∀ i, ∃ sheet : Sheet,
        (Emitter.start .stp).addAll (ts.take i) = .ok (.source sheet) ∧ sheet.indent = 0)
    ∧ ∀ t ∈ ts,
        (∃ texts,
          List.Forall₂ (fun n text => Target.stp.render (.ofNode n) = .ok text)
              t.root.children texts
            ∧ Target.stp.render t = .ok (String.join texts))
        ∧ ∀ n ∈ t.root.walk, n.kind.isEntry = true → ∀ s : Sheet, ∃ ls,
            linesOf (statement n) s.indent = .ok ls ∧ statement n s = .ok ((), s.extend ls)
              ∧ (n.kind = .ifStatement → n.choiceLines s.indent = .ok ls) := by
  have hshown (form : Target) (us : List Tree) (hus : ∀ t ∈ us, t.Made) :
      ∃ texts, List.Forall₂ (Emitter.start form).Shows us texts :=
    exists_forall₂ fun t ht => (hus t ht).exists_shown form
  refine ⟨fun form hform => ?_, fun i => ?_, fun t ht => ⟨(h t ht).render_eq, ?_⟩⟩
  · obtain ⟨texts, htexts⟩ := hshown form ts h
    obtain ⟨e, hrun, -, houtput⟩ := (Emitter.ready_start hform).addAll htexts
    rw [Emitter.output_start hform, String.empty_append] at houtput
    exact ⟨texts, e, htexts, hrun, houtput⟩
  · obtain ⟨texts, htexts⟩ := hshown .stp (ts.take i) fun t ht => h t (List.mem_of_mem_take ht)
    obtain ⟨e, hrun, hready, -⟩ := (Emitter.ready_start (by decide)).addAll htexts
    cases hready with
    | source hs => exact ⟨_, hrun, hs⟩
  · intro n hn hk s
    have hformed : n.Formed := (h t ht).formed.2.of_mem_walk hn
    obtain ⟨ls, hls⟩ := (hformed.writable hk).exists_lines s.indent
    exact ⟨ls, hls, (appends_statement n).run hls,
      fun hif => (lays_ifStatement hif).linesOf_eq _ ▸ hls⟩

/-- An `if` with another one in a clause and a text over two lines in the next, and then a
parenthesis that nothing opens. -/
def clausesText : String :=
  "if a \x7bb\x7d elseif c \x7bif d \x7b\x7d\x7d else \x7b\"x\ny\"\x7d\n)"

/-- How this program is shown. -/
def clausesShown : String :=
  "if a \x7b\n    b\n\x7d elseif c \x7b\n    if d \x7b\n    \x7d\n"
    ++ "\x7d else \x7b\n    \"x\ny\"\n\x7d\n# error: Unmatched ')'\n"

/-- The clauses stand behind the closing braces of the outer `if`, and the program below it
begins at the margin. -/
theorem emitted_one_by_one_clauses :
    ∃ t u e, parse clausesText false 9 = .ok t ∧ parse "f(1;q" false 9 = .ok u
      ∧ (Emitter.start .stp).addAll [t, u] = .ok e
      ∧ e.output = clausesShown ++ "# error: Expected ')' to close '(', got ';'\nq\n" := by
  have htext : (parse clausesText false 9).toOption.map
      (fun t => ((Emitter.start .stp).add t).toOption.map (·.output))
        = some (some clausesShown) := by
    decide +kernel
  have htext' : (parse "f(1;q" false 9).toOption.map
      (fun t => ((Emitter.start .stp).add t).toOption.map (·.output))
        = some (some "# error: Expected ')' to close '(', got ';'\nq\n") := by
    decide +kernel
  obtain ⟨t, ht, hshown⟩ := exists_of_map_toOption htext
  obtain ⟨u, hu, hshown'⟩ := exists_of_map_toOption htext'
  have hmade : ∀ t' ∈ [t, u], t'.Made := by simpa using ⟨.read ht, .read hu⟩
  obtain ⟨texts, e, hshows, hrun, houtput⟩ := (emitted_one_by_one hmade).1 .stp (by decide)
  refine ⟨t, u, e, ht, hu, hrun, ?_⟩
  have hboth := Emitter.shows_unique hshows
    (.cons (exists_of_map_toOption hshown) (.cons (exists_of_map_toOption hshown') .nil))
  rw [houtput, hboth]
  rfl

end StpLang
