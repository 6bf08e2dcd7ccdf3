import StpLang.Render.Document
import StpLang.Render.Outline
import StpLang.Render.Source
import StpLang.Text.Lowercase

/-!
Showing trees.

A tree is shown as program text, as an outline or as a JSON document. A
`Target` names the form, and an `Emitter` collects what is shown.

* `Target.render` shows one tree.
* `Emitter.add` shows a program below what has been shown before; only a
  document replaces the one before it.
-/

namespace StpLang

/-- The forms in which a tree is shown. -/
inductive Target where
  | stp
  | source
  | tree
  | json
deriving DecidableEq, Repr

namespace Target

/-- The public name of a form. -/
def name : Target → String
  | stp => "stp"
  | source => "source"
  | tree => "tree"
  | json => "json"

/-- All forms. -/
def all : List Target := [stp, source, tree, json]

/-- The form of a name in small letters. -/
def ofName? (n : String) : Option Target := all.find? (·.name == n)

/-- The form of a name in small or capital letters, or the name in small
letters when it names none. -/
def ofAnyCase (n : String) : Except String Target :=
  match ofName? (Text.lower n) with
  | some t => .ok t
  | none => .error (Text.lower n)

/-- The wording for a name, in small letters, that names no form. -/
def unknownMessage (n : String) : String := "Unknown render target: " ++ Text.quoted n

end Target

/-- What has been shown so far. -/
inductive Emitter where
  | source (sheet : Source.Sheet)
  | outline (lines : List String)
  | document (json : Json)

namespace Emitter

/-- Nothing shown yet. -/
def start : Target → Emitter
  | .stp | .source => .source {}
  | .tree => .outline []
  | .json => .document (.object [])

/-- Shows a program. -/
def add (e : Emitter) (t : Tree) : Except RenderFault Emitter :=
  match e with
  | .source sheet => .source <$> sheet.add t
  | .outline lines => .ok (.outline (lines ++ Outline.lines t))
  | .document _ => .ok (.document t.toJson)

/-- Shows a tree with any node at its root that can stand there. -/
def addAny (e : Emitter) (t : Tree) : Except RenderFault Emitter :=
  let unsupported := RenderFault.noRoot t.root.kind.name t.root.line t.root.col
  match e with
  | .source sheet =>
    if Source.isRoot t.root.kind then
      return .source (← (Source.statement t.root).run sheet).2
    else .error unsupported
  | e => if t.root.kind == .sourceFile then e.add t else .error unsupported

/-- The text of what has been shown. -/
def output : Emitter → String
  | .source sheet => sheet.output
  | .outline lines => String.join (lines.map (· ++ "\n"))
  | .document json => json.write (some 2) ++ "\n"

end Emitter

/-- The text of a tree in a form. -/
def Target.render (target : Target) (t : Tree) : Except RenderFault String :=
  return (← (Emitter.start target).addAny t).output

end StpLang
