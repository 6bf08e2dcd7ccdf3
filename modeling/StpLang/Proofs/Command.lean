import StpLang.Command.Run
import StpLang.Proofs.Command.Disk
import StpLang.Proofs.Render.Parsed
import StpLang.Proofs.Underline

/-!
The command on one source.

A run without recovery either shows the tree and reports nothing, or it reports one error
and leaves everything else alone. A run with recovery shows the same where there is no
error, and otherwise what it could read, and reports every error.

A text is a sequence of characters of Unicode, all of which UTF-8 can encode; so writing
cannot fail at a character.

* `Found` says what the text of a source is, `CanEmit` whether there is a place for the
  output, `Emitted` where the output of a run is found, `EndsWith` how a run ends.
* `deliver_ends` is the delivery of a tree, which cannot fail halfway: every tree that is
  read can be shown.
* `runSource_all_or_nothing` is the result.
-/

namespace StpLang

namespace Command

/-! ### How a run ends -/

/-- The text of a source: the source itself, or that of the file which it names. -/
inductive Found (d : Disk) : (isText : Bool) → (source : String) → SourceText → Prop
  | text (source : String) : Found d true source ⟨"<string>", source⟩
  | file {source text : String} {bytes : List UInt8} (named : source.endsWith ".stp" = true)
      (holds : d.read source = .ok bytes) (decodes : textOfBytes bytes = .ok text) :
      Found d false source ⟨source, text⟩

/-- There is a place for the output: the console if there is no path, else the place to
which the path leads. -/
def CanEmit (d : Disk) (out : Option String) : Prop :=
  out.getD "" = "" ∨ ∃ place, d.Writable (out.getD "") place

/-- The text is the output: on the console if there is no path, else in the file, which then
holds the text and nothing else, while all other files hold what they held. The device
swallows it. -/
inductive Emitted (d : Disk) (out : Option String) (text : String) :
    (stdout : String) → (after : Disk) → Prop
  | console (unnamed : out.getD "" = "") : Emitted d out text text d
  | file {place : List String} {after : Disk} (named : out.getD "" ≠ "")
      (leads : d.Writable (out.getD "") place) (plain : d.entryAt? place ≠ some .device)
      (becomes : after = d.put place text.toUTF8.toList)
      (holds : after.read (out.getD "") = .ok text.toUTF8.toList)
      (others : ∀ path bytes, d.read path = .ok bytes → d.locate path ≠ .ok place →
        after.read path = .ok bytes) : Emitted d out text "" after
  | device {place : List String} (named : out.getD "" ≠ "")
      (leads : d.Writable (out.getD "") place) (device : d.entryAt? place = some .device) :
      Emitted d out text "" d

/-- A run on a source ends with a status, an output, errors and a disk. For every error, in
their order, its diagnostic stands on `stderr`: two lines that name the error and its place,
and the rows of the source below. Before the diagnostics stands the log, which is empty
unless a lower threshold is set. -/
structure EndsWith (level : Severity) (s : SourceText) (run : Ending × Disk) (status : Nat)
    (stdout : String) (errors : List Error) (d : Disk) : Prop where
  ends : ∃ events, run = (.finished {
      status, stdout, stderr := Event.log level events
        ++ String.join (errors.map fun e => e.format s.text s.filename ++ "\n") }, d)
    ∧ (level = .warning ∨ level = .error → Event.log level events = "")
  shown : ∀ e ∈ errors,
    e.format s.text s.filename = Text.join "\n" (e.head s.text s.filename ++ e.rows s.text)

lemma log_append (threshold : Severity) (es es' : List Event) :
    Event.log threshold (es ++ es') = Event.log threshold es ++ Event.log threshold es' := by
  rw [Event.log, Event.log, Event.log, List.filter_append, List.map_append, String.join_append]

/-- No event is a warning. -/
lemma log_eq_empty {threshold : Severity} (h : threshold = .warning ∨ threshold = .error)
    (es : List Event) : Event.log threshold es = "" := by
  have hquiet (e : Event) : e.severity.rank ≤ Severity.info.rank := by
    cases e <;> simp [Event.severity, Severity.rank]
  have hloud : Severity.info.rank < threshold.rank := by rcases h with rfl | rfl <;> decide
  have hnil : es.filter (threshold.rank ≤ ·.severity.rank) = [] :=
    List.filter_eq_nil_iff.mpr fun e _ => by
      have := hquiet e
      simp only [decide_eq_true_eq]
      omega
  rw [Event.log, hnil]
  rfl

lemma endsWith_of_events {level : Severity} {s : SourceText} {run : Ending × Disk}
    {status : Nat} {stdout : String} {errors : List Error} {d : Disk} (events : List Event)
    (h : run = (.finished {
      status, stdout, stderr := Event.log level events ++ String.join (errors.map (report s)) },
      d)) :
    EndsWith level s run status stdout errors d where
  ends := ⟨events, h, fun hl => log_eq_empty hl events⟩
  shown _ _ := rfl

/-! ### Delivering a tree -/

section

variable {α β : Type} {x : StateM Disk α} {f : α → StateM Disk β} {a : α}

/-- A step on a disk, and what follows it. -/
lemma run_then {d d' : Disk} (h : x.run d = (a, d')) : (x >>= f).run d = (f a).run d' := by
  rw [StateT.run_bind, h]
  rfl

end

lemma run_write {d d' : Disk} {path text : String} (h : d.write path text = .ok d') :
    (Disk.access.write path text).run d = (.ok (), d') := by
  unfold Disk.access
  dsimp only
  rw [StateT.run_bind, StateT.run_get, pure_bind, h]
  rfl

section

variable {d d' : Disk} {o : Options} {s : SourceText} {target : Target} {t : Tree}
  {text stdout : String}

/-- What is done with a text: it is shown, or written to a file. -/
inductive Handed (d : Disk) (out : Option String) (text : String) :
    (stdout : String) → (after : Disk) → Prop
  | console (unnamed : out.getD "" = "") : Handed d out text text d
  | file {after : Disk} (named : out.getD "" ≠ "")
      (written : d.write (out.getD "") text = .ok after) : Handed d out text "" after

/-- Where there is a place for the output, any text is emitted there. -/
lemma CanEmit.emitted {out : Option String} (h : CanEmit d out) (text : String) :
    ∃ stdout d', Handed d out text stdout d' ∧ Emitted d out text stdout d' := by
  by_cases hpath : out.getD "" = ""
  · exact ⟨text, d, .console hpath, .console hpath⟩
  obtain ⟨place, hplace⟩ := h.resolve_left hpath
  by_cases hdevice : d.entryAt? place = some .device
  · exact ⟨"", d, .file hpath (Disk.write_of_device hplace hdevice text),
      .device hpath hplace hdevice⟩
  · exact ⟨"", _, .file hpath (Disk.write_of_ne_device hplace hdevice text),
      .file hpath hplace hdevice rfl (Disk.read_put hplace)
        fun _ _ hread hne => Disk.read_put_ne hplace hread hne⟩

/-- In every folder a file can be written under its path from the root, wherever the run
takes place. -/
theorem canEmit_pathOf {folder : List String} {name : String} (hname : Disk.IsName name)
    (hnames : ∀ n ∈ folder, Disk.IsName n)
    (hfolders : ∀ p, p <+: folder → d.entryAt? p = some .folder)
    (hshort : (Disk.pathOf (folder ++ [name])).utf8ByteSize ≤ Disk.maxPath)
    (hfree : d.entryAt? (folder ++ [name]) ≠ some .folder) :
    CanEmit d (some (Disk.pathOf (folder ++ [name]))) :=
  .inr ⟨folder ++ [name], Disk.locate_pathOf hname hnames hfolders hshort,
    Disk.endsInSlash_pathOf hname, hfree⟩

/-- A tree that can be shown is delivered, with the report of its errors. -/
lemma deliver_ends (ht : target.render t = .ok text) (hw : Handed d o.out text stdout d')
    (events : List Event) : ∃ events',
      (deliver Disk.access o target s (Event.log o.logLevel events) t).run d = ({
          status := statusOf t.errors, stdout
          stderr := Event.log o.logLevel events' ++ String.join (t.errors.map (report s)) },
        d') := by
  unfold deliver
  rw [ht]
  dsimp only
  rw [← log_append]
  cases hw with
  | console hpath =>
    rw [if_pos (by rw [hpath]; rfl)]
    exact ⟨_, rfl⟩
  | file hpath hwritten =>
    refine ⟨events ++ [.rendered t.root.kind.name target.name]
      ++ [.outputWritten target.name (o.out.getD "")], ?_⟩
    rw [if_neg (by simpa using hpath), run_then (run_write hwritten), log_append _ (events ++ _)]
    rfl

/-! ### Carrying out a run -/

/-- Finding the source does not change the disk. -/
lemma run_readSource {isText : Bool} {source : String} (hs : Found d isText source s) :
    (readSource Disk.access isText source).run d = (.ok s, d) := by
  cases hs with
  | text => rfl
  | @file _ text bytes hnamed hread hdecodes =>
    have hfile : (Disk.access.read source).run d = (.ok bytes, d) := by
      rw [← hread]
      rfl
    unfold readSource
    rw [if_neg Bool.false_ne_true, if_neg (by simp [hnamed]), run_then hfile]
    dsimp only
    rw [hdecodes]
    rfl

variable {setting : Option String} {source : String} {limit : Int}

/-- Where a source is refused, the run reports the error and does nothing else. -/
lemma runSource_error {e : Error} (hs : Found d o.isText source s)
    (hl : Limit.resolve o.maxDepth setting = .ok limit)
    (he : parse s.text (!o.recover) limit = .error e) :
    EndsWith o.logLevel s ((runSource Disk.access setting o source).run d) 1 "" [e] d := by
  refine endsWith_of_events ([.sourceRead s.filename s.text.length]
    ++ (read s.text (!o.recover) limit).trace) ?_
  have hreport : String.join ([e].map (report s)) = report s e := String.empty_append
  unfold parse at he
  unfold runSource
  rw [run_then (run_readSource hs), log_append, hreport]
  simp only [hl, he]
  rfl

/-- Where a source is read, the run delivers the tree. -/
lemma runSource_ok (hs : Found d o.isText source s)
    (hl : Limit.resolve o.maxDepth setting = .ok limit) (hg : o.target = some target)
    (ht : parse s.text (!o.recover) limit = .ok t) (hr : target.render t = .ok text)
    (hw : Handed d o.out text stdout d') :
    EndsWith o.logLevel s ((runSource Disk.access setting o source).run d)
      (statusOf t.errors) stdout t.errors d' := by
  obtain ⟨events, hdeliver⟩ := deliver_ends (s := s) hr hw
    ([.sourceRead s.filename s.text.length] ++ (read s.text (!o.recover) limit).trace)
  refine endsWith_of_events events ?_
  unfold parse at ht
  unfold runSource
  rw [log_append] at hdeliver
  rw [run_then (run_readSource hs)]
  simp only [hl, ht, hg]
  rw [run_then hdeliver]
  rfl

/-! ### Whole runs -/

/-- **A run shows the whole tree or nothing, and both ways to read agree.** A source is
read that the run can find, under a limit, in a form, with a place for the output. The
source may be a text or a file, and paths may start at the root or at the working directory.

Either the strict reader gives a tree. Then a run ends well with or without recovery: its
text is emitted, and there is no diagnostic. Or the strict reader fails. Then a run without
recovery shows nothing, leaves all files alone and reports the error, and one with recovery
emits the text of what it could read and reports every error of it, in their order. -/
theorem runSource_all_or_nothing (hs : Found d o.isText source s) (hg : o.target = some target)
    (hl : Limit.resolve o.maxDepth setting = .ok limit) (hw : CanEmit d o.out) :
    (∃ t text stdout d', parse s.text true limit = .ok t ∧ target.render t = .ok text
      ∧ Emitted d o.out text stdout d'
      ∧ ∀ recover, EndsWith o.logLevel s
          ((runSource Disk.access setting { o with recover } source).run d) 0 stdout [] d')
    ∨ ∃ e t text stdout d', parse s.text true limit = .error e
      ∧ EndsWith o.logLevel s
          ((runSource Disk.access setting { o with recover := false } source).run d) 1 "" [e] d
      ∧ parse s.text false limit = .ok t ∧ t.errors ≠ [] ∧ target.render t = .ok text
      ∧ Emitted d o.out text stdout d'
      ∧ EndsWith o.logLevel s
          ((runSource Disk.access setting { o with recover := true } source).run d)
          1 stdout t.errors d' := by
  have hshown {t : Tree} (ht : parse s.text false limit = .ok t) :
      ∃ text stdout d', target.render t = .ok text ∧ Handed d o.out text stdout d'
        ∧ Emitted d o.out text stdout d' := by
    obtain ⟨hroot, hformed⟩ := formed_of_readFrom ht
    obtain ⟨text, htext⟩ := Target.render_ok hroot hformed target
    obtain ⟨stdout, d', hhanded, hemitted⟩ := hw.emitted text
    exact ⟨text, stdout, d', htext, hhanded, hemitted⟩
  rcases parse_either s.text limit with ⟨t, ht, hnil⟩ | ⟨e, t, he, ht, hne⟩
  · obtain ⟨text, stdout, d', htext, hhanded, hemitted⟩ := hshown (ht false)
    refine .inl ⟨t, text, stdout, d', ht true, htext, hemitted, fun recover => ?_⟩
    have hends := runSource_ok (o := { o with recover }) hs hl hg (ht _) htext hhanded
    rw [hnil] at hends
    exact hends
  · obtain ⟨text, stdout, d', htext, hhanded, hemitted⟩ := hshown ht
    refine .inr ⟨e, t, text, stdout, d', he, ?_, ht, hne, htext, hemitted, ?_⟩
    · exact runSource_error (o := { o with recover := false }) hs hl he
    · have hends := runSource_ok (o := { o with recover := true }) hs hl hg ht htext hhanded
      rw [statusOf, if_neg (by simpa using hne)] at hends
      exact hends

end

/-! ### A run that meets errors -/

/-- Two statements, both with an error, in a file. -/
def twoErrors : SourceText := ⟨"/home/two.stp", "a = )\nb = (1"⟩

/-- A system with that file and another folder, seen from a third one. -/
def office : Disk where
  files := [(["home", "two.stp"], twoErrors.text.toUTF8.toList)]
  folders := [["out"]]
  here := ["tmp", "work"]

/-- The program is written to a file in that folder. -/
def toFile : Options :=
  { target := some .stp, out := some "/out/two.stp", maxDepth := some 9 }

lemma found_twoErrors : Found office toFile.isText twoErrors.filename twoErrors :=
  have hread : office.read "/home/two.stp" = .ok twoErrors.text.toUTF8.toList := by
    decide +kernel
  .file (by decide +kernel) hread (by decide +kernel)

lemma canEmit_toFile : CanEmit office toFile.out := by
  have hpath : "/out/two.stp" = Disk.pathOf (["out"] ++ ["two.stp"]) := by decide +kernel
  have hfolders : ∀ p ∈ ["out"].inits, office.entryAt? p = some .folder := by decide +kernel
  have hout : Disk.IsName "out" := ⟨by decide, by decide, by decide, by decide⟩
  have hname : Disk.IsName "two.stp" := ⟨by decide, by decide, by decide, by decide⟩
  rw [toFile, hpath]
  exact canEmit_pathOf hname (List.forall_mem_singleton.mpr hout)
    (fun p hp => hfolders p ((List.mem_inits p _).mpr hp)) (by decide +kernel) (by decide +kernel)

/-- Without recovery one error is reported, and all files are as before. With recovery both
are reported, the new file holds what could be read, and the source is as before. -/
theorem runSource_all_or_nothing_twoErrors :
    ∃ (e : Error) (t : Tree) (text : String) (d' : Disk), t.errors.length = 2
      ∧ Target.stp.render t = .ok text
      ∧ EndsWith toFile.logLevel twoErrors ((runSource Disk.access none
          { toFile with recover := false } twoErrors.filename).run office) 1 "" [e] office
      ∧ EndsWith toFile.logLevel twoErrors ((runSource Disk.access none
          { toFile with recover := true } twoErrors.filename).run office) 1 "" t.errors d'
      ∧ d'.read "/out/two.stp" = .ok text.toUTF8.toList
      ∧ d'.read "/home/two.stp" = .ok twoErrors.text.toUTF8.toList := by
  have hl : Limit.resolve toFile.maxDepth none = .ok 9 := rfl
  have hstrict : (parse twoErrors.text true 9).toOption = none := by decide +kernel
  have hout : office.locate "/out/two.stp" = .ok ["out", "two.stp"] := by decide +kernel
  obtain ⟨u, hu, hlength⟩ := exists_of_map_toOption (show (parse twoErrors.text
    false 9).toOption.map (·.errors.length) = some 2 by decide +kernel)
  rcases runSource_all_or_nothing found_twoErrors rfl hl canEmit_toFile with
    ⟨t, -, -, -, ht, -⟩ | ⟨e, t, text, stdout, d', -, hfails, ht, -, hr, hemitted, hends⟩
  · rw [ht] at hstrict
    cases hstrict
  · cases hu.symm.trans ht
    cases hemitted with
    | console hpath => exact absurd hpath (by decide)
    | file hpath hleads hplain hbecomes hholds hothers =>
      cases hout.symm.trans hleads.leads
      exact ⟨e, u, text, d', hlength, hr, hfails, hends, hholds,
        hothers _ _ (by decide +kernel) (by decide +kernel)⟩
    | device hpath hleads hdevice =>
      cases hout.symm.trans hleads.leads
      exact absurd hdevice (by decide +kernel)

end Command

end StpLang
