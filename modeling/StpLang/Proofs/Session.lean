import Mathlib.Algebra.Ring.Int.Defs
import StpLang.Proofs.Render
import StpLang.Proofs.Schema
import StpLang.Session

/-!
Interactive sessions.

Whatever a user types, a session goes on until the word that ends it or the end of the
input. Lines are collected into entries one after another, and only two commands change
the settings, which always name a form.

* `Collected` and `Entry` say which lines make an entry, without regard to what it
  means.
* `Settings.Changes` says how an entry changes the settings, and `Settings.After` what
  becomes of them over some entries.
* `Session.Stands` describes a session at a prompt and `Session.Stands.enter` the step
  from one prompt to the next.
* `Session.transcript_total` is the result for whole sessions.
-/

namespace StpLang

/-! ### Entries -/

/-- The text of the entry that some lines make. -/
def entryText (ls : List String) : String := Text.strip (Text.join "\n" ls)

/-- The lines leave an entry open: they open more delimiters than they close, or the
last of them ends with a backslash. -/
def leavesOpen (ls : List String) : Bool :=
  0 < (ls.map openDelimiters).sum || ls.getLast?.bind (·.toList.getLast?) == some '\\'

/-- The lines of an unfinished entry: each leaves the entry open, and the first is no
word that ends the session. -/
inductive Collected : List String → Prop
  | nil : Collected []
  | snoc {ls : List String} {line : String} (h : Collected ls)
      (hline : ls = [] → Session.isExit line = false) (hopen : leavesOpen (ls ++ [line]) = true) :
      Collected (ls ++ [line])

/-- The lines of an entry: the last one, and no other, leaves nothing open. -/
inductive Entry : List String → Prop
  | intro {ls : List String} {line : String} (h : Collected ls)
      (hline : ls = [] → Session.isExit line = false)
      (hclosed : leavesOpen (ls ++ [line]) = false) : Entry (ls ++ [line])

/-! ### Settings -/

/-- The text is a command: a colon and a name, then an argument behind a blank, or
nothing. -/
structure IsCommand (name : String) (argument : List Char) (text : String) : Prop where
  text : text.toList = ':' :: (name.toList ++ argument)
  blank : ∀ c ∈ argument.head?, c = ' '

/-- An entry changes the settings: it asks for a form by its name, or for the other
mode. -/
inductive Settings.Changes (s : Settings) (text : String) : Settings → Prop
  | target {argument : List Char} {form : Target} (h : IsCommand "target" argument text)
      (hform : Target.ofAnyCase (Text.strip (.ofList argument)) = .ok form) :
      Changes s text { s with target := form.name }
  | strict {argument : List Char} (h : IsCommand "strict" argument text) :
      Changes s text { s with strict := !s.strict }

/-- The settings behind some entries: only an entry that asks for it changes them. -/
inductive Settings.After (s : Settings) : List (List String) → Settings → Prop
  | nil : After s [] s
  | kept {es : List (List String)} {e : List String} {t : Settings} (h : After s es t)
      (hnone : ∀ u, ¬t.Changes (entryText e) u) : After s (es ++ [e]) t
  | changed {es : List (List String)} {e : List String} {t u : Settings} (h : After s es t)
      (hc : t.Changes (entryText e) u) : After s (es ++ [e]) u

section

variable {s u : Settings} {text name : String} {argument : List Char}

/-- What a command does depends on its name. -/
lemma IsCommand.command_eq (h : IsCommand name argument text) (hname : ' ' ∉ name.toList) :
    s.command text = some (
      if name == "target" then s.setTarget (Text.strip (.ofList argument))
      else if name == "strict" then s.toggleStrict
      else (s, "[error] >>> Unknown command :" ++ name ++ "\n")) := by
  have hall : ∀ c ∈ name.toList, (c != ' ') = true := by
    intro c hc
    rw [bne_iff_ne]
    rintro rfl
    exact hname hc
  have hargument : argument.takeWhile (· != ' ') = []
      ∧ argument.dropWhile (· != ' ') = argument := by
    cases argument with
    | nil => exact ⟨rfl, rfl⟩
    | cons c cs =>
      have hc : (c != ' ') = false := by
        rw [h.blank c rfl]
        rfl
      exact ⟨List.takeWhile_cons_of_neg (by simp [hc]), List.dropWhile_cons_of_neg (by simp [hc])⟩
  have hname : (name.toList ++ argument).takeWhile (· != ' ') = name.toList := by
    rw [List.takeWhile_append_of_pos hall, hargument.1, List.append_nil]
  have hrest : (name.toList ++ argument).dropWhile (· != ' ') = argument := by
    rw [List.dropWhile_append_of_pos hall, hargument.2]
  rw [Settings.command, h.text]
  show some _ = _
  rw [hname, hrest, String.ofList_toList]

/-- A text that begins with a colon is a command. -/
lemma exists_isCommand {cs : List Char} (h : text.toList = ':' :: cs) :
    ∃ name argument, IsCommand name argument text ∧ ' ' ∉ name.toList := by
  refine ⟨.ofList (cs.takeWhile (· != ' ')), cs.dropWhile (· != ' '), ⟨?_, fun c hc => ?_⟩, ?_⟩
  · rw [String.toList_ofList, List.takeWhile_append_dropWhile, h]
  · have hhead := List.head?_dropWhile_not (· != ' ') cs
    rw [hc] at hhead
    simpa using hhead
  · rw [String.toList_ofList]
    intro hmem
    simpa using List.all_eq_true.mp List.all_takeWhile ' ' hmem

/-- An entry that asks for a change makes it. -/
lemma Settings.Changes.command (h : s.Changes text u) :
    ∃ shown, s.command text = some (u, shown) := by
  cases h with
  | target h hform =>
    rw [h.command_eq (by decide), if_pos (beq_self_eq_true _), setTarget, hform]
    exact ⟨_, rfl⟩
  | strict h =>
    rw [h.command_eq (by decide)]
    exact ⟨_, rfl⟩

/-- An empty entry asks for no change. -/
lemma Settings.Changes.ne_empty (h : s.Changes text u) : ¬text.isEmpty = true := by
  have hcolon {name : String} {argument : List Char} (h : IsCommand name argument text) :
      ¬text.isEmpty = true := by
    intro hempty
    have htext := h.text
    rw [String.isEmpty_iff.mp hempty] at htext
    simp at htext
  cases h with
  | target h => exact hcolon h
  | strict h => exact hcolon h

/-- A command makes the change that it asks for, or none. -/
lemma Settings.command_cases (s : Settings) (text : String) :
    (∃ u shown, s.command text = some (u, shown) ∧ s.Changes text u)
      ∨ (s.command text = none ∨ ∃ shown, s.command text = some (s, shown))
        ∧ ∀ u, ¬s.Changes text u := by
  by_cases hchange : ∃ u, s.Changes text u
  · obtain ⟨u, hu⟩ := hchange
    obtain ⟨shown, hshown⟩ := hu.command
    exact .inl ⟨u, shown, hshown, hu⟩
  · rw [not_exists] at hchange
    refine .inr ⟨?_, hchange⟩
    by_cases hcolon : ∃ cs, text.toList = ':' :: cs
    · obtain ⟨cs, hcs⟩ := hcolon
      obtain ⟨name, argument, h, hname⟩ := exists_isCommand hcs
      right
      rw [h.command_eq hname]
      by_cases htarget : name = "target"
      · subst htarget
        rw [if_pos (beq_self_eq_true _), setTarget]
        cases hform : Target.ofAnyCase (Text.strip (.ofList argument)) with
        | ok form => exact absurd (.target h hform) (hchange _)
        | error name => exact ⟨_, rfl⟩
      · rw [if_neg (mt beq_iff_eq.mp htarget)]
        by_cases hstrict : name = "strict"
        · subst hstrict
          exact absurd (.strict h) (hchange _)
        · rw [if_neg (mt beq_iff_eq.mp hstrict)]
          exact ⟨_, rfl⟩
    · left
      unfold Settings.command
      split
      · rename_i cs hcs
        exact absurd ⟨cs, hcs⟩ hcolon
      · rfl

end

/-! ### Names of forms -/

/-- The letters from `a` to `z`. -/
def Text.isSmall (c : Char) : Bool := 0x61 ≤ c.toNat && c.toNat ≤ 0x7a

lemma Text.lowerChar_of_isSmall {c : Char} (h : isSmall c = true) : lowerChar c = [c] := by
  rw [isSmall, Bool.and_eq_true, decide_eq_true_eq, decide_eq_true_eq] at h
  have hruns : caseRuns.toList.all (fun r => r.last < 0x61 || 0x7a < r.first) = true := by
    decide +kernel
  have hnone : caseRuns.find? (·.holds c.toNat) = none := by
    refine Array.find?_eq_none.mpr fun r hr => ?_
    have hapart := List.all_eq_true.mp hruns r hr.val
    simp only [Bool.or_eq_true, decide_eq_true_eq] at hapart
    simp only [CaseRun.holds, Bool.and_eq_true, decide_eq_true_eq]
    omega
  rw [lowerChar, if_neg (by omega), hnone]

/-- Small letters stay as they are. -/
lemma Text.lower_of_isSmall {s : String} (h : ∀ c ∈ s.toList, isSmall c = true) : lower s = s := by
  have hfrom (before cs : List Char) (h : ∀ c ∈ cs, isSmall c = true) :
      lowerFrom before cs = cs := by
    induction cs generalizing before with
    | nil => rfl
    | cons c cs ih =>
      rw [List.forall_mem_cons] at h
      have hsigma : c.toNat ≠ 0x3a3 := by
        have hc := h.1
        rw [isSmall, Bool.and_eq_true, decide_eq_true_eq, decide_eq_true_eq] at hc
        omega
      rw [lowerFrom, decide_eq_false hsigma, Bool.false_and, if_neg Bool.false_ne_true,
        lowerChar_of_isSmall h.1, ih _ h.2, List.singleton_append]
  rw [lower, hfrom _ _ h, String.ofList_toList]

/-- The name of a form names it. -/
lemma Target.ofAnyCase_name (form : Target) : Target.ofAnyCase form.name = .ok form := by
  have hsmall : form.name.toList.all Text.isSmall = true := by
    cases form <;> rfl
  have hname : Target.ofName? form.name = some form := by
    cases form <;> decide
  rw [Target.ofAnyCase, Text.lower_of_isSmall (List.all_eq_true.mp hsmall), hname]

/-- A change leaves a name of a form. -/
lemma Settings.Changes.target_mem {s u : Settings} {text : String} (h : s.Changes text u)
    (hs : s.target ∈ Target.all.map Target.name) : u.target ∈ Target.all.map Target.name := by
  cases h with
  | @target _ form h hform => exact List.mem_map_of_mem (by cases form <;> decide)
  | strict h => exact hs

/-! ### What an entry shows -/

/-- Whatever the text, it is read and its tree is shown. -/
lemma evaluate_ok {s : Settings} (hs : s.target ∈ Target.all.map Target.name) (limit : Int)
    (text : String) : ∃ shown, evaluate s limit text = .ok shown := by
  obtain ⟨form, -, hform⟩ := List.mem_map.mp hs
  unfold evaluate
  dsimp only
  cases hr : (read text s.strict limit).result with
  | error e => exact ⟨_, rfl⟩
  | ok tree =>
    obtain ⟨hroot, hformed⟩ := formed_of_readFrom hr
    obtain ⟨rendered, hrendered⟩ := Target.render_ok hroot hformed form
    have hshow : ∃ shown, showTree s text tree = .ok shown := by
      rw [showTree, Settings.form, ← hform, form.ofAnyCase_name]
      show ∃ shown, ((form.render tree).mapError SessionFault.render >>= _) = .ok shown
      rw [hrendered]
      exact ⟨_, rfl⟩
    obtain ⟨shown, hshown⟩ := hshow
    dsimp only
    rw [hshown]
    exact ⟨_, rfl⟩

/-! ### Prompts -/

namespace Session

/-- The session behind some typed lines, unless one of them ends it. -/
def after? (s : Session) : List String → Option Session
  | [] => some s
  | line :: lines =>
    match s.enter line with
    | .ok reply => reply.next.bind (·.after? lines)
    | .error _ => none

/-- A session at the prompt behind the lines `ls`, which are those of the entries `es`
and of an unfinished one. The settings were given and have changed with the entries. -/
structure Stands (given : Settings) (limit : Int) (es : List (List String)) (ls : List String)
    (s : Session) : Prop where
  lines : ls = es.flatten ++ s.pending.reverse
  finished : ∀ e ∈ es, Entry e
  unfinished : Collected s.pending.reverse
  changes : given.After es s.settings
  target : s.settings.target ∈ Target.all.map Target.name
  depth : s.depth = (s.pending.reverse.map openDelimiters).sum
  limit : s.limit = .ok limit

section

variable {given : Settings} {limit : Int} {es : List (List String)} {ls : List String}
  {s : Session} {line : String}

/-- A finished entry leaves the settings as they were, or it asks for a change. -/
lemma Stands.submit (h : s.Stands given limit es ls) (e : List String) (count : Nat) :
    ∃ settings shown, s.submit (entryText e) count
        = .ok ⟨some { s with pending := [], depth := 0, settings }, shown⟩
      ∧ given.After (es ++ [e]) settings ∧ settings.target ∈ Target.all.map Target.name := by
  unfold Session.submit
  dsimp only
  by_cases hempty : (entryText e).isEmpty = true
  · rw [if_pos hempty]
    exact ⟨s.settings, _, rfl, h.changes.kept fun u hu => hu.ne_empty hempty, h.target⟩
  · rw [if_neg hempty]
    rcases s.settings.command_cases (entryText e) with ⟨u, shown, hcommand, hu⟩ | ⟨hcommand, hnone⟩
    · rw [hcommand]
      exact ⟨u, _, rfl, h.changes.changed hu, hu.target_mem h.target⟩
    · have hkept := h.changes.kept hnone
      rcases hcommand with hcommand | ⟨shown, hcommand⟩
      · obtain ⟨shown, hshown⟩ := evaluate_ok h.target limit (entryText e)
        have hlimit : s.limit.mapError SessionFault.limit = .ok limit := by
          rw [h.limit]
          rfl
        simp only [hcommand, hlimit, ok_bind, hshown]
        exact ⟨s.settings, _, rfl, hkept, h.target⟩
      · rw [hcommand]
        exact ⟨s.settings, _, rfl, hkept, h.target⟩

/-- The lines of an entry leave it open as long as the count of delimiters and the last
line say so. -/
lemma Stands.leavesOpen_eq (h : s.Stands given limit es ls) (line : String) :
    leavesOpen (s.pending.reverse ++ [line])
      = !(decide (s.depth + openDelimiters line ≤ 0) && line.toList.getLast? != some '\\') := by
  have hsum : ((s.pending.reverse ++ [line]).map openDelimiters).sum
      = s.depth + openDelimiters line := by
    rw [List.map_append, List.sum_append, ← h.depth]
    simp
  rw [leavesOpen, hsum, List.getLast?_concat, Option.bind_some, Bool.not_and, bne, Bool.not_not,
    ← decide_not]
  simp only [Int.not_le]

/-- **From one prompt to the next.** A line ends the session, or it is added to the
unfinished entry, which it may finish. -/
lemma Stands.enter (h : s.Stands given limit es ls) (line : String) :
    (s.pending = [] ∧ isExit line = true ∧ s.enter line = .ok ⟨none, ⟨farewell, []⟩⟩)
      ∨ ∃ t shown es', s.enter line = .ok ⟨some t, shown⟩
        ∧ t.Stands given limit es' (ls ++ [line]) := by
  by_cases hexit : (s.pending.isEmpty && isExit line) = true
  · left
    have hboth := Bool.and_eq_true_iff.mp hexit
    refine ⟨List.isEmpty_iff.mp hboth.1, hboth.2, ?_⟩
    rw [Session.enter, if_pos hexit]
    rfl
  · right
    have hline : s.pending.reverse = [] → isExit line = false := by
      intro hnil
      rw [List.reverse_eq_nil_iff] at hnil
      simpa [hnil] using hexit
    have hpending : (line :: s.pending).reverse = s.pending.reverse ++ [line] :=
      List.reverse_cons
    have hopen := h.leavesOpen_eq line
    rw [Session.enter, if_neg hexit]
    dsimp only
    cases hc : decide (s.depth + openDelimiters line ≤ 0) && line.toList.getLast? != some '\\' with
    | true =>
      rw [hc] at hopen
      rw [if_pos rfl, hpending]
      obtain ⟨settings, shown, hsubmit, hchanges, htarget⟩ :=
        h.submit (s.pending.reverse ++ [line]) (line :: s.pending).length
      refine ⟨_, shown, es ++ [s.pending.reverse ++ [line]], hsubmit, ?_, ?_, .nil, hchanges,
        htarget, rfl, h.limit⟩
      · rw [h.lines]
        simp
      · exact List.forall_mem_append.mpr ⟨h.finished, List.forall_mem_singleton.mpr
          (.intro h.unfinished hline hopen)⟩
    | false =>
      rw [hc] at hopen
      rw [if_neg Bool.false_ne_true]
      refine ⟨_, _, es, rfl, ?_, h.finished, ?_, h.changes, h.target, ?_, h.limit⟩
      · rw [h.lines, hpending, List.append_assoc]
      · rw [hpending]
        exact .snoc h.unfinished hline hopen
      · rw [hpending, List.map_append, List.sum_append, ← h.depth]
        simp

end

/-! ### Whole sessions -/

/-- How a session at a prompt ends, and what it shows then: no line is left to type, or
the next one is the word that ends it. -/
inductive Ends (s : Session) : List String → Shown → Prop
  | input : Ends s [] closing
  | exit {line : String} {rest : List String} (hpending : s.pending = [])
      (hexit : isExit line = true) : Ends s (line :: rest) ⟨farewell, []⟩

/-- The course of a session that is given the lines `typed ++ rest` and takes those in
`typed` until it ends: at every prompt it stands behind the lines typed before. -/
structure Course (given : Settings) (limit : Int) (s : Session) (ls typed rest : List String)
    (steps : List (String × Shown)) : Prop where
  length : steps.length = typed.length + 1
  prompts : ∀ k ≤ typed.length, ∃ es t, s.after? (typed.take k) = some t
    ∧ t.Stands given limit es (ls ++ typed.take k) ∧ steps[k]?.map (·.1) = some t.prompt
  ends : ∃ t shown, s.after? typed = some t ∧ t.Ends rest shown
    ∧ steps.getLast?.map (·.2) = some shown

section

variable {given : Settings} {limit : Int} {es : List (List String)}
  {ls typed rest : List String} {s t : Session} {line : String} {shown : Shown}
  {steps : List (String × Shown)}

/-- A session that ends at its first prompt. -/
lemma Course.end (h : s.Stands given limit es ls) (hend : s.Ends rest shown) :
    Course given limit s ls [] rest [(s.prompt, shown)] := by
  refine ⟨rfl, fun k hk => ?_, s, shown, rfl, hend, rfl⟩
  obtain rfl : k = 0 := Nat.le_zero.mp hk
  exact ⟨es, s, rfl, by simpa using h, rfl⟩

/-- A line before the rest of a session. -/
lemma Course.cons (h : s.Stands given limit es ls) (hline : s.enter line = .ok ⟨some t, shown⟩)
    (hrest : Course given limit t (ls ++ [line]) typed rest steps) :
    Course given limit s ls (line :: typed) rest ((s.prompt, shown) :: steps) := by
  have hafter (us : List String) : s.after? (line :: us) = t.after? us := by
    rw [after?, hline]
    rfl
  obtain ⟨hlength, hprompts, u, last, hu, hend, hlast⟩ := hrest
  refine ⟨by rw [List.length_cons, List.length_cons, hlength], fun k hk => ?_, u, last,
    (hafter typed).trans hu, hend, ?_⟩
  · cases k with
    | zero => exact ⟨es, s, rfl, by simpa using h, rfl⟩
    | succ k =>
      obtain ⟨es', v, hv, hstands, hprompt⟩ := hprompts k (Nat.le_of_succ_le_succ hk)
      refine ⟨es', v, (hafter _).trans hv, ?_, hprompt⟩
      rwa [List.take_succ_cons, ← List.singleton_append, ← List.append_assoc]
  · obtain ⟨x, xs, rfl⟩ := List.exists_cons_of_length_eq_add_one hlength
    exact hlast

/-- The course of a session from a prompt on. -/
lemma Stands.course (h : s.Stands given limit es ls) (lines : List String) :
    ∃ steps typed rest, s.transcript lines = .ok steps ∧ lines = typed ++ rest
      ∧ Course given limit s ls typed rest steps := by
  induction lines generalizing s es ls with
  | nil => exact ⟨_, [], [], rfl, rfl, .end h .input⟩
  | cons line lines ih =>
    rcases h.enter line with ⟨hpending, hexit, hrun⟩ | ⟨t, shown, es', hrun, ht⟩
    · refine ⟨_, [], line :: lines, ?_, rfl, .end h (.exit hpending hexit)⟩
      rw [transcript, hrun]
      rfl
    · obtain ⟨steps, typed, rest, hsteps, rfl, hcourse⟩ := ih ht
      refine ⟨_, line :: typed, rest, ?_, rfl, .cons h hrun hcourse⟩
      rw [transcript, hrun]
      simp only [ok_bind, hsteps]
      rfl

end

/-- A new session. The limit is a given one or that of the environment. -/
def opening (form : Target) (strict : Bool) (depth : Option Int) (setting : Option String) :
    Session :=
  { settings := ⟨form.name, strict⟩, limit := Limit.resolve depth setting }

/-- **A session goes on until its end.** Whatever lines are typed, each prompt is
followed by an answer until the lines run out or one of them ends the session. At
every prompt the lines typed so far are those of finished entries, one after another,
and of an unfinished one. The settings name a form, and only entries that ask for it
have changed them. -/
theorem transcript_total {depth : Option Int} {setting : Option String} {limit : Int}
    (hlimit : Limit.resolve depth setting = .ok limit) (form : Target) (strict : Bool)
    (lines : List String) :
    ∃ steps typed rest, (opening form strict depth setting).transcript lines = .ok steps
      ∧ lines = typed ++ rest
      ∧ Course ⟨form.name, strict⟩ limit (opening form strict depth setting) [] typed rest
        steps := by
  have hopening : (opening form strict depth setting).Stands ⟨form.name, strict⟩ limit [] [] :=
    ⟨rfl, fun _ he => (List.not_mem_nil he).elim, .nil, .nil,
      List.mem_map_of_mem (by cases form <;> decide), rfl, hlimit⟩
  exact hopening.course lines

/-- A program on three lines and two commands before the word that ends the session. -/
theorem transcript_total_quit :
    Limit.resolve none (some "7") = .ok 7
    ∧ ∃ steps typed rest,
      (opening .tree false none (some "7")).transcript
        ["x = (", "1", ")", ":target stp", ":strict", "quit", "y"] = .ok steps
      ∧ ["x = (", "1", ")", ":target stp", ":strict", "quit", "y"] = typed ++ rest
      ∧ typed.length = 5
      ∧ Course ⟨"tree", false⟩ 7 (opening .tree false none (some "7")) [] typed rest steps := by
  have hlimit : Limit.resolve none (some "7") = .ok 7 := by rfl
  obtain ⟨steps', hsteps', hcount⟩ := exists_of_map_toOption (show
    ((opening .tree false none (some "7")).transcript
      ["x = (", "1", ")", ":target stp", ":strict", "quit", "y"]).toOption.map List.length
      = some 6 by decide +kernel)
  obtain ⟨steps, typed, rest, hsteps, hlines, hcourse⟩ := transcript_total hlimit .tree false
    ["x = (", "1", ")", ":target stp", ":strict", "quit", "y"]
  obtain rfl : steps = steps' := Except.ok.inj (hsteps.symm.trans hsteps')
  exact ⟨hlimit, steps, typed, rest, hsteps, hlines, by have := hcourse.length; omega, hcourse⟩

end Session

end StpLang
