import Mathlib.Data.List.Forall2
import StpLang.Proofs.Json
import StpLang.Proofs.Node
import StpLang.Render

/-!
A tree can be told from its document.

The document of a tree records everything but the height and the comments that the grammar
passes over: two trees with the same document have the same nodes, down to the text, the
place, the range and the labels of each, and the same errors. Kinds count by their names.

* `Node.Corresponds` and `Error.Corresponds` say what two nodes or two errors have in common.
* `Node.members_append_inj` tells a node from its object, by induction over the tree.
* `render_json_eq_iff`: two programs have the same text exactly when they match.
-/

namespace StpLang

/-! ### The same node -/

/-- Two nodes are the same, and so are those below them. -/
inductive Node.Corresponds : Node → Node → Prop
  | mk {n m : Node} (kind : n.kind.name = m.kind.name) (value : n.value = m.value)
      (line : n.line = m.line) (col : n.col = m.col) (start : n.start = m.start)
      (stop : n.stop = m.stop) (fields : n.fields = m.fields)
      (children : List.Forall₂ Node.Corresponds n.children m.children) : Node.Corresponds n m

/-- Two errors are reported in the same words at the same place. -/
structure Error.Corresponds (e f : Error) : Prop where
  label : e.category.label = f.category.label
  message : e.message = f.message
  span : e.span = f.span

/-- Two trees have the same nodes and errors. -/
structure Tree.Corresponds (t u : Tree) : Prop where
  root : t.root.Corresponds u.root
  errors : List.Forall₂ Error.Corresponds t.errors u.errors

/-! ### Labels -/

lemma Field.name_injective : Function.Injective Field.name := by
  have hread : ∀ f : Field, ofName? f.name = some f := by
    intro f
    cases f <;> rfl
  intro f g h
  have hf := hread f
  rw [h, hread g] at hf
  exact (Option.some.inj hf).symm

lemma Json.number_injective : Function.Injective Json.number := fun _ _ h => Json.number.inj h

/-- The labels of a node are told from its object. -/
lemma FieldTable.toJson_injective : Function.Injective FieldTable.toJson := by
  refine fun a b h => List.map_injective_iff.mpr ?_ (Json.object.inj h)
  rintro ⟨f, ps⟩ ⟨g, qs⟩ h
  obtain ⟨hname, hlist⟩ := Prod.mk.inj h
  have hps := List.map_injective_iff.mpr Json.number_injective (Json.list.inj hlist)
  rw [Field.name_injective hname, hps]

/-! ### Nodes -/

namespace Node

/-- The text of a node, or that it has none. -/
lemma value_inj {v w : Option String}
    (h : (v.map Json.text).getD .null = (w.map Json.text).getD .null) : v = w := by
  cases v with
  | none =>
    cases w with
    | none => rfl
    | some w => cases h
  | some v =>
    cases w with
    | none => cases h
    | some w => exact congrArg some (Json.text.inj h)

lemma documents_eq (ns : List Node) : documents ns = ns.map toJson := by
  induction ns with
  | nil => rw [documents]; rfl
  | cons n ns ih => rw [documents, ih]; rfl

lemma members_eq (n : Node) :
    n.members = [("kind", .text n.kind.name), ("value", (n.value.map Json.text).getD .null),
      ("line", .number n.line), ("col", .number n.col), ("start", .number n.start),
      ("end", .number n.stop), ("children", .list (n.children.map toJson))]
      ++ if n.fields.isEmpty then [] else [("fields", n.fields.toJson)] := by
  cases n
  rw [members, documents_eq]

/-- Members under other names than that of the labels. -/
def Further (es : List (String × Json)) : Prop := ∀ e ∈ es, e.1 ≠ "fields"

/-- The labels, which are left out when there are none, are told from the members behind
them. -/
lemma fields_inj {a b : FieldTable} {es es' : List (String × Json)} (he : Further es)
    (he' : Further es')
    (h : (if a.isEmpty then [] else [("fields", a.toJson)]) ++ es
      = (if b.isEmpty then [] else [("fields", b.toJson)]) ++ es') : a = b ∧ es = es' := by
  cases a with
  | nil =>
    cases b with
    | nil => exact ⟨rfl, h⟩
    | cons label b =>
      replace h : es = ("fields", _) :: es' := h
      exact absurd rfl (he _ (h ▸ List.mem_cons_self))
  | cons label a =>
    cases b with
    | nil =>
      replace h : ("fields", _) :: es = es' := h
      exact absurd rfl (he' _ (h ▸ List.mem_cons_self))
    | cons label' b =>
      obtain ⟨hlabels, hmore⟩ := List.cons.inj h
      exact ⟨FieldTable.toJson_injective (Prod.mk.inj hlabels).2, hmore⟩

/-- Lists whose members agree in pairs under a function. -/
lemma map_eq_map_iff {α β : Type} {f : α → β} {l l' : List α} :
    l.map f = l'.map f ↔ List.Forall₂ (fun a b => f a = f b) l l' := by
  rw [← List.forall₂_eq_eq_eq, List.forall₂_map_left_iff, List.forall₂_map_right_iff]

/-- A node is told from the members of its object, whatever else the object holds. -/
lemma members_append_inj {n m : Node} {es es' : List (String × Json)} (he : Further es)
    (he' : Further es') (h : n.members ++ es = m.members ++ es') : n.Corresponds m ∧ es = es' := by
  induction n using induction_children generalizing m es es' with
  | h n ih =>
    simp only [members_eq, List.cons_append, List.nil_append, List.cons.injEq, Prod.mk.injEq,
      true_and, Json.text.injEq, Json.number.injEq, Json.list.injEq] at h
    obtain ⟨hkind, hvalue, hline, hcol, hstart, hstop, hchildren, hmore⟩ := h
    obtain ⟨hfields, hes⟩ := fields_inj he he' hmore
    refine ⟨⟨hkind, value_inj hvalue, hline, hcol, hstart, hstop, hfields, ?_⟩, hes⟩
    have hbelow := (List.forall₂_and_left _ _).mpr
      ⟨fun _ hc => hc, map_eq_map_iff.mp hchildren⟩
    refine hbelow.imp fun c d hcd => ?_
    have hmembers := Json.object.inj hcd.2
    exact (ih c hcd.1 (List.forall_mem_nil _) (List.forall_mem_nil _)
      (congrArg (· ++ []) hmembers)).1

/-- Nodes that match have the same object. -/
lemma Corresponds.members_eq {n m : Node} (h : n.Corresponds m) : n.members = m.members := by
  induction n using induction_children generalizing m with
  | h n ih =>
    obtain ⟨hkind, hvalue, hline, hcol, hstart, hstop, hfields, hbelow⟩ := h
    have hchildren : n.children.map toJson = m.children.map toJson := by
      refine map_eq_map_iff.mpr ?_
      refine ((List.forall₂_and_left _ _).mpr ⟨fun _ hc => hc, hbelow⟩).imp fun c d hcd => ?_
      exact congrArg Json.object (ih c hcd.1 hcd.2)
    rw [Node.members_eq, Node.members_eq, hkind, hvalue, hline, hcol, hstart, hstop, hfields,
      hchildren]

end Node

/-! ### Trees -/

lemma Error.toJson_inj {e f : Error} (h : e.toJson = f.toJson) : e.Corresponds f := by
  simp only [Error.toJson, Json.object.injEq, List.cons.injEq, Prod.mk.injEq, true_and,
    Json.text.injEq, Json.number.injEq, and_true] at h
  obtain ⟨hlabel, hmessage, hline, hcol, hstart, hstop⟩ := h
  refine ⟨hlabel, hmessage, ?_⟩
  cases he : e.span with
  | mk start stop line col =>
    cases hf : f.span with
    | mk start' stop' line' col' => simp_all

lemma Error.Corresponds.toJson_eq {e f : Error} (h : e.Corresponds f) : e.toJson = f.toJson := by
  simp only [Error.toJson, h.label, h.message, h.span]

/-- The errors, which are left out when there are none, are told from the document. -/
lemma errors_inj {es fs : List Error}
    (h : (if es.isEmpty then [] else [("errors", Json.list (es.map Error.toJson))])
      = if fs.isEmpty then [] else [("errors", Json.list (fs.map Error.toJson))]) :
    List.Forall₂ Error.Corresponds es fs := by
  have hmap : es.map Error.toJson = fs.map Error.toJson := by
    cases es with
    | nil =>
      cases fs with
      | nil => rfl
      | cons f fs => cases h
    | cons e es =>
      cases fs with
      | nil => cases h
      | cons f fs => exact Json.list.inj (Prod.mk.inj (List.cons.inj h).1).2
  exact (Node.map_eq_map_iff.mp hmap).imp fun _ _ => Error.toJson_inj

namespace Tree

/-- The list of the errors is no list of labels. -/
lemma further_errors (es : List Error) : Node.Further
    (if es.isEmpty then [] else [("errors", Json.list (es.map Error.toJson))]) := by
  intro e he
  split at he
  · cases he
  · rw [List.mem_singleton.mp he]
    exact fun h => absurd h (show "errors" ≠ "fields" by decide)

lemma toJson_inj {t u : Tree} (h : t.toJson = u.toJson) : t.Corresponds u := by
  obtain ⟨hroot, herrors⟩ := Node.members_append_inj (further_errors _) (further_errors _)
    (Json.object.inj h)
  exact ⟨hroot, errors_inj herrors⟩

/-- Trees that match have the same document. -/
lemma Corresponds.toJson_eq {t u : Tree} (h : t.Corresponds u) : t.toJson = u.toJson := by
  have hmap := Node.map_eq_map_iff.mpr (h.errors.imp fun _ _ => Error.Corresponds.toJson_eq)
  have hempty : t.errors.isEmpty = u.errors.isEmpty := by
    rw [← List.isEmpty_map (f := Error.toJson), hmap, List.isEmpty_map]
  rw [toJson, toJson, h.root.members_eq, hmap, hempty]

end Tree

/-- The text of a program is that of its document, on lines of its own. -/
lemma render_json {t : Tree} (h : t.root.kind = .sourceFile) :
    Target.json.render t = .ok (t.toJson.write (some 2) ++ "\n") := by
  have hadd : (Emitter.document (.object [])).addAny t = .ok (.document t.toJson) :=
    if_pos (beq_iff_eq.mpr h)
  rw [Target.render, show Emitter.start .json = .document (.object []) from rfl, hadd]
  rfl

/-- **A document loses nothing.** Two programs are shown by the same JSON text exactly when
they have the same nodes, down to the kind, the text (or that there is none), the place, the
range and the labels of each, and the same errors. -/
theorem render_json_eq_iff {t u : Tree} (ht : t.root.kind = .sourceFile)
    (hu : u.root.kind = .sourceFile) :
    Target.json.render t = Target.json.render u ↔ t.Corresponds u := by
  rw [render_json ht, render_json hu]
  constructor
  · intro h
    have htext := congrArg String.toList (Except.ok.inj h)
    rw [String.toList_append, String.toList_append] at htext
    have hwrite := String.toList_inj.mp (List.append_cancel_right htext)
    exact Tree.toJson_inj (Json.write_injective _ hwrite)
  · intro h
    rw [h.toJson_eq]

/-- A comment without a text and one with the text `null` are told apart. -/
theorem render_json_eq_iff_null :
    ∃ t u : Tree, t.root.kind = .sourceFile ∧ u.root.kind = .sourceFile
      ∧ t.root.children.map (·.value) = [none] ∧ u.root.children.map (·.value) = [some "null"]
      ∧ (Target.json.render t = Target.json.render u ↔ t.Corresponds u)
      ∧ Target.json.render t ≠ Target.json.render u := by
  let t : Tree := .ofNode { kind := .sourceFile, children := [{ kind := .comment }] }
  let u : Tree := .ofNode
    { kind := .sourceFile, children := [{ kind := .comment, value := some "null" }] }
  have hiff : Target.json.render t = Target.json.render u ↔ t.Corresponds u :=
    render_json_eq_iff rfl rfl
  refine ⟨t, u, rfl, rfl, rfl, rfl, hiff, fun h => ?_⟩
  obtain ⟨_, _, _, _, _, _, _, hchildren⟩ := (hiff.mp h).root
  cases hchildren with
  | cons hcomment _ =>
    obtain ⟨_, hvalue⟩ := hcomment
    cases hvalue

end StpLang
