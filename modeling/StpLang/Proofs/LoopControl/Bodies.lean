import StpLang.Proofs.Grammar.SoundStatement

/-!
The bodies that are open at a place of a program.

A brace opens the body of the construct whose word came last before it, so that the
tokens alone tell within which bodies a place lies. A strict reader agrees with them:
the loops that it counts are the bodies of loops open within the innermost function.

* `Bodies.after` passes a token, and `openBodies` all tokens before a place.
* `Report` is what the outcome of a step tells of the bodies that are open.
* `Still` says that a step opens and closes no body and has no complaint about loops.
* `Minds` says that a step closes the bodies that it opens, and complains about loops
  only where no body of a loop is open.
-/

namespace StpLang

open Parse

/-! ### Bodies -/

/-- What a body belongs to. -/
inductive Body where
  /-- A loop. -/
  | loop
  /-- A function. -/
  | function
  /-- A branch of an `if`. -/
  | branch
deriving DecidableEq, Repr

/-- The bodies open at a place. -/
structure Bodies where
  /-- What the next brace opens. -/
  header : Body := .branch
  /-- The bodies open, the innermost first. -/
  opened : List Body := []
deriving DecidableEq, Repr

namespace Bodies

/-- The next brace opens a body of the given sort. -/
def heading (b : Bodies) (header : Body) : Bodies := { b with header }

/-- The bodies with the next one opened. -/
def enter (b : Bodies) : Bodies := { b with opened := b.header :: b.opened }

/-- The bodies open behind a token. -/
def after (b : Bodies) (t : Token) : Bodies :=
  match t.kind with
  | .kwWhile | .kwFor => b.heading .loop
  | .kwFn => b.heading .function
  | .kwIf | .kwElseif | .kwElse => b.heading .branch
  | .leftBrace => b.enter
  | .rightBrace => { b with opened := b.opened.tail }
  | _ => b

/-- The number of bodies of loops that are open within the innermost function. -/
def loops (b : Bodies) : Nat := (b.opened.takeWhile (· ≠ .function)).count .loop

end Bodies

/-- The bodies open behind some tokens. -/
def openBodies (ts : List Token) : Bodies := ts.foldl Bodies.after {}

/-- The tokens that neither open nor close a body, nor tell what a brace opens. -/
def TokenKind.isStill : TokenKind → Bool
  | .kwWhile | .kwFor | .kwFn | .kwIf | .kwElseif | .kwElse | .leftBrace | .rightBrace => false
  | _ => true

/-- A complaint about a `break` or a `cont` outside of loops. -/
def Cause.isStray : Cause → Bool
  | .outsideLoop _ => true
  | _ => false

namespace Parser

/-- The tokens that have been read and those ahead. -/
def tokens (s : Parser) : List Token := s.before.reverse ++ s.rest

/-- The bodies open at the token ahead. -/
def bodies (s : Parser) : Bodies := openBodies s.before.reverse

end Parser

section

variable {s t : Parser} {b : Bodies} {x : Token} {ts xs : List Token}

lemma Bodies.after_of_isStill (h : x.kind.isStill = true) (b : Bodies) : b.after x = b := by
  unfold after
  cases hk : x.kind <;> first | rfl | (rw [hk] at h; cases h)

lemma Parser.tokens_step (s : Parser) : s.step.tokens = s.tokens := by
  unfold step tokens
  cases hs : s.rest with
  | nil => simp only [hs]
  | cons x xs => simp

lemma Parser.bodies_step (h : s.rest = x :: xs) : s.step.bodies = s.bodies.after x := by
  simp only [step, h, bodies, openBodies, List.reverse_cons, List.foldl_append, List.foldl_cons,
    List.foldl_nil]

/-- Passing a still token, or nothing at the end. -/
lemma Parser.bodies_step_of_isStill (h : s.current.kind.isStill = true) :
    s.step.bodies = s.bodies := by
  cases hs : s.rest with
  | nil => rw [step, hs]
  | cons x xs =>
    rw [current_of_rest hs] at h
    rw [bodies_step hs, Bodies.after_of_isStill h]

/-- A token ahead that is no end mark. -/
lemma Parser.bodies_step_of_ne (h : s.current.kind ≠ .eof) :
    s.step.bodies = s.bodies.after s.current := by
  rw [current_kind] at h
  exact bodies_step (rest_eq_current h)

end

/-! ### Counting loops -/

section

variable {b b' : Bodies}

lemma Bodies.loops_congr (h : b.opened = b'.opened) : b.loops = b'.loops := by
  rw [loops, loops, h]

@[simp] lemma Bodies.opened_heading (b : Bodies) (header : Body) :
    (b.heading header).opened = b.opened := rfl

lemma Bodies.loops_heading (b : Bodies) (header : Body) : (b.heading header).loops = b.loops := rfl

lemma Bodies.loops_loop (b : Bodies) : (b.heading .loop).enter.loops = b.loops + 1 := by
  simp [heading, enter, loops]

lemma Bodies.loops_function (b : Bodies) : (b.heading .function).enter.loops = 0 := by
  simp [heading, enter, loops]

lemma Bodies.loops_branch (b : Bodies) : (b.heading .branch).enter.loops = b.loops := by
  simp [heading, enter, loops]

end

/-! ### Reports -/

/-- What the outcome of a step that began among the tokens `all` tells: in case of
success of the bodies open then, else of the error. -/
inductive Report {α : Type} (all : List Token) (post : Bodies → Prop) (blame : Error → Prop) :
    EStateM.Result Error Parser α → Prop
  | ok {a : α} {t : Parser} (ht : t.tokens = all) (h : post t.bodies) :
      Report all post blame (.ok a t)
  | error {e : Error} {t : Parser} (h : blame e) : Report all post blame (.error e t)

/-- The step leaves the bodies as `post` says and fails with errors as in `blame`. -/
structure ReportsAt {α : Type} (post : Bodies → Prop) (blame : Error → Prop) (p : Parse α)
    (s : Parser) : Prop where
  run : Report s.tokens post blame (p s)

/-- The step opens and closes no body, and it does not complain about loops. -/
def StillAt {α : Type} (p : Parse α) (s : Parser) : Prop :=
  ReportsAt (· = s.bodies) (·.cause.isStray = false) p s

/-- The step is still wherever it begins. -/
structure Still {α : Type} (p : Parse α) : Prop where
  stillAt : ∀ s, StillAt p s

/-- Among the tokens stands the `break` or `cont` of which the error complains, and no
body of a loop is open before it. -/
def Strays (all : List Token) (e : Error) : Prop :=
  e.cause.isStray = true → ∃ us x vs, all = us ++ x :: vs
    ∧ (x.kind = .kwBreak ∨ x.kind = .kwCont) ∧ e = ⟨.outsideLoop x.value, x.span⟩
    ∧ (openBodies us).loops = 0

/-- The step closes the bodies that it opens, and it complains about loops rightly. -/
def MindsAt {α : Type} (p : Parse α) (s : Parser) : Prop :=
  ReportsAt (·.opened = s.bodies.opened) (Strays s.tokens) p s

section

variable {α β : Type} {s : Parser} {p q : Parse α} {f : α → Parse β} {P P' : Bodies → Prop}
  {blame blame' : Error → Prop}

lemma Report.imp {all : List Token} {r : EStateM.Result Error Parser α}
    (h : Report all P blame r) (hp : ∀ b, P b → P' b) (hb : ∀ e, blame e → blame' e) :
    Report all P' blame' r := by
  cases h with
  | ok ht h => exact .ok ht (hp _ h)
  | error h => exact .error (hb _ h)

namespace ReportsAt

lemma bind (hp : ReportsAt P blame p s)
    (hf : ∀ a t, p s = .ok a t → t.tokens = s.tokens → P t.bodies →
      ReportsAt P' blame (f a) t) : ReportsAt P' blame (p >>= f) s := by
  obtain ⟨hp⟩ := hp
  refine ⟨?_⟩
  cases hr : p s with
  | error e t =>
    rw [hr] at hp
    rw [bind_error hr]
    cases hp with
    | error h => exact .error h
  | ok a t =>
    rw [hr] at hp
    rw [bind_ok hr]
    cases hp with
    | ok ht h => exact ht ▸ (hf a t hr ht h).run

lemma ite {c : Prop} [Decidable c] (hp : c → ReportsAt P blame p s)
    (hq : ¬c → ReportsAt P blame q s) : ReportsAt P blame (if c then p else q) s := by
  split
  · exact hp ‹c›
  · exact hq ‹¬c›

lemma of_bind_pure (h : ReportsAt P blame (p >>= pure) s) : ReportsAt P blame p s := by
  rwa [bind_pure] at h

lemma discard_bind {g : PUnit → Parse β} (h : ReportsAt P blame (p >>= fun _ => g ⟨⟩) s) :
    ReportsAt P blame (discard p >>= g) s := by
  rwa [Parse.discard_bind]

/-- Passing a token. -/
lemma advance_bind {g : Token → Parse β} (h : ReportsAt P blame (g s.current) s.step) :
    ReportsAt P blame (advance >>= g) s :=
  ⟨by rw [run_advance, ← s.tokens_step]; exact h.run⟩

lemma get_bind {g : Parser → Parse β} (h : ReportsAt P blame (g s) s) :
    ReportsAt P blame (get >>= g) s := ⟨h.run⟩

lemma current_bind {g : Token → Parse β} (h : ReportsAt P blame (g s.current) s) :
    ReportsAt P blame (current >>= g) s := ⟨h.run⟩

lemma tokensLeft_bind {g : Nat → Parse β} (h : ReportsAt P blame (g s.rest.length) s) :
    ReportsAt P blame (tokensLeft >>= g) s := ⟨h.run⟩

lemma note_bind (x : Event) {g : Unit → Parse β}
    (h : ReportsAt P blame (g ()) { s with trace := x :: s.trace }) :
    ReportsAt P blame (note x >>= g) s := ⟨h.run⟩

end ReportsAt

/-! ### Still steps -/

namespace StillAt

lemma bind (hp : StillAt p s) (hf : ∀ a, Still (f a)) : StillAt (p >>= f) s :=
  ReportsAt.bind hp fun a t _ _ ht => ht ▸ (hf a).stillAt t

lemma ite {c : Prop} [Decidable c] (hp : c → StillAt p s) (hq : ¬c → StillAt q s) :
    StillAt (if c then p else q) s := ReportsAt.ite hp hq

/-- Passing a still token. -/
lemma advance_bind {g : Token → Parse β} (hk : s.current.kind.isStill = true)
    (h : Still (g s.current)) : StillAt (advance >>= g) s :=
  ReportsAt.advance_bind (Parser.bodies_step_of_isStill hk ▸ h.stillAt s.step)

lemma discard_bind {g : PUnit → Parse β} (h : StillAt (p >>= fun _ => g ⟨⟩) s) :
    StillAt (discard p >>= g) s := ReportsAt.discard_bind h

lemma get_bind {g : Parser → Parse β} (h : StillAt (g s) s) : StillAt (get >>= g) s :=
  ReportsAt.get_bind h

lemma of_bind_pure (h : StillAt (p >>= pure) s) : StillAt p s := ReportsAt.of_bind_pure h

end StillAt

namespace Still

lemma pure (a : α) : Still (pure a : Parse α) := ⟨fun _ => ⟨.ok rfl rfl⟩⟩

lemma fail {cause : Cause} (h : cause.isStray = false) (r : Span) :
    Still (fail cause r : Parse α) := ⟨fun _ => ⟨.error h⟩⟩

lemma fail_bind {cause : Cause} (h : cause.isStray = false) (r : Span) :
    Still (Parse.fail cause r >>= f) := ⟨fun _ => ⟨.error h⟩⟩

lemma node (kind : Kind) (place : Place) (ns : List Node) (fields : FieldTable)
    (value : Option String) : Still (node kind place ns fields value) := ⟨fun _ => ⟨.ok rfl rfl⟩⟩

lemma bind (hp : Still p) (hf : ∀ a, Still (f a)) : Still (p >>= f) :=
  ⟨fun s => (hp.stillAt s).bind hf⟩

lemma ite {c : Prop} [Decidable c] (hp : c → Still p) (hq : ¬c → Still q) :
    Still (if c then p else q) :=
  ⟨fun s => .ite (fun h => (hp h).stillAt s) fun h => (hq h).stillAt s⟩

lemma discard_bind {g : PUnit → Parse β} (hp : Still p) (hf : Still (g ⟨⟩)) :
    Still (discard p >>= g) := by
  rw [Parse.discard_bind]
  exact hp.bind fun _ => hf

lemma get_bind {g : Parser → Parse β} (h : ∀ s, StillAt (g s) s) : Still (get >>= g) :=
  ⟨fun s => ⟨(h s).run⟩⟩

lemma current_bind {g : Token → Parse β} (h : ∀ s, StillAt (g s.current) s) :
    Still (current >>= g) := ⟨fun s => ⟨(h s).run⟩⟩

lemma tokensLeft_bind {g : Nat → Parse β} (h : ∀ n, Still (g n)) : Still (tokensLeft >>= g) :=
  ⟨fun s => ⟨((h _).stillAt s).run⟩⟩

lemma expect {kinds : List TokenKind} (h : ∀ k ∈ kinds, k.isStill = true) :
    Still (expect kinds) := by
  refine .current_bind fun s => .ite (fun hc => ?_) fun _ => (fail rfl _).stillAt s
  exact .of_bind_pure (.advance_bind (h _ (List.contains_iff_mem.mp hc)) (pure _))

lemma leafOf {tokenKind : TokenKind} (h : tokenKind.isStill = true) (kind : Kind) :
    Still (leafOf tokenKind kind) :=
  (expect (List.forall_mem_singleton.mpr h)).bind fun _ => .pure _

lemma accept {kinds : List TokenKind} (h : ∀ k ∈ kinds, k.isStill = true) :
    Still (accept kinds) := by
  refine .current_bind fun s => .ite (fun hc => ?_) fun _ => (pure _).stillAt s
  rw [map_eq_bind]
  exact .advance_bind (h _ (List.contains_iff_mem.mp hc)) (pure _)

/-- Closing a group or a matrix. -/
lemma close {opener : Token} (h : opener.kind ≠ .leftBrace) : Still (close opener) := by
  refine .current_bind fun s => .ite (fun hc => ?_) fun _ =>
    .ite (fun _ => (fail rfl _).stillAt s) fun _ => (fail rfl _).stillAt s
  refine .of_bind_pure (.advance_bind ?_ (pure _))
  have hcloser := (beq_iff_eq.mp hc).symm
  generalize opener.kind = k at hcloser h
  generalize s.current.kind = j at hcloser
  cases k <;> first
    | exact absurd rfl h
    | (cases hcloser; rfl)
    | cases hcloser

end Still

/-! ### Steps that mind the loops -/

/-- A still step has no complaint that could be wrong. -/
lemma StillAt.reportsAt (h : StillAt p s) : ReportsAt (· = s.bodies) (Strays s.tokens) p s :=
  ⟨h.run.imp (fun _ hb => hb) fun _ he hs => by rw [he] at hs; cases hs⟩

lemma Still.mindsAt (h : Still p) (s : Parser) : MindsAt p s :=
  ⟨(h.stillAt s).reportsAt.run.imp (fun _ hb => by rw [hb]) fun _ he => he⟩

namespace MindsAt

/-- What minds the loops behind some steps does so before them, if these have left the
open bodies as they were. -/
lemma of_eq {t : Parser} (ht : t.tokens = s.tokens) (hb : t.bodies.opened = s.bodies.opened)
    (h : MindsAt p t) : ReportsAt (·.opened = s.bodies.opened) (Strays s.tokens) p t := by
  rw [← ht, ← hb]
  exact h

lemma bind (hp : MindsAt p s)
    (hf : ∀ a t, t.bodies.opened = s.bodies.opened → MindsAt (f a) t) : MindsAt (p >>= f) s :=
  ReportsAt.bind hp fun a t _ ht hb => of_eq ht hb (hf a t hb)

lemma bind_still (hp : MindsAt p s) (hf : ∀ a, Still (f a)) : MindsAt (p >>= f) s :=
  hp.bind fun a t _ => (hf a).mindsAt t

/-- Behind a still step the next brace opens the same body. -/
lemma still_bind (hp : Still p)
    (hf : ∀ a t, p s = .ok a t → t.bodies = s.bodies → MindsAt (f a) t) : MindsAt (p >>= f) s :=
  ReportsAt.bind (hp.stillAt s).reportsAt fun a t hr ht hb => of_eq ht (by rw [hb]) (hf a t hr hb)

end MindsAt

end

end StpLang
