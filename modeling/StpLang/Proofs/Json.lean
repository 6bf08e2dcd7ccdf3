import Mathlib.Tactic.Lemma
import StpLang.Json

/-!
The text of a JSON document determines the document.

Read from the left, the text of a string ends at its closing quote, that of a number where
no digit follows, and that of a list or an object at its closing bracket. So a text splits
in one way only into a document and what stands behind it.

* `Json.textChars_inj` says this of strings, whose characters are told apart by
  `Json.textChar_inj`.
* `Json.chars_inj` says it of documents at any level, by induction on the first of two.
* `Json.write_injective`: two documents with the same text are the same.
-/

namespace StpLang.Json

variable {k k' : List Char}

/-! ### Strings -/

/-- The character that a letter behind a backslash stands for. -/
def ofLetter (x : Char) : Char :=
  if x = 'n' then '\n'
  else if x = 'r' then '\r'
  else if x = 't' then '\t'
  else if x = 'f' then Char.ofNat 0x0c
  else if x = 'b' then Char.ofNat 0x08
  else x

/-- How a character of a string is written. -/
inductive Written : Char → List Char → Prop
  | plain {c : Char} (hq : c ≠ '"') (hb : c ≠ '\\') : Written c [c]
  | letter {x : Char} (hx : x ≠ 'u') : Written (ofLetter x) ['\\', x]
  | number {c : Char} (hc : c.toNat < 0x20) : Written c ('\\' :: 'u' :: Text.hex 4 c.toNat)

lemma written_textChar (c : Char) : Written c (textChar c) := by
  have hcode {n : Nat} (hn : c.toNat = n) : c = Char.ofNat n := by rw [← hn, Char.ofNat_toNat]
  unfold textChar
  split
  · subst c
    exact .letter (x := '"') (by decide)
  split
  · subst c
    exact .letter (x := '\\') (by decide)
  split
  · subst c
    exact .letter (x := 'n') (by decide)
  split
  · subst c
    exact .letter (x := 'r') (by decide)
  split
  · subst c
    exact .letter (x := 't') (by decide)
  split
  · rw [hcode ‹_›]
    exact .letter (x := 'f') (by decide)
  split
  · rw [hcode ‹_›]
    exact .letter (x := 'b') (by decide)
  split
  · exact .number ‹_›
  · exact .plain ‹_› ‹_›

lemma hex_inj : ∀ m < 0x20, ∀ n < 0x20, Text.hex 4 m = Text.hex 4 n → m = n := by
  decide +kernel

/-- A character of a string is told by the way it is written, whatever stands behind it. -/
lemma Written.inj {c c' : Char} {w w' : List Char} (h : Written c w) (h' : Written c' w')
    (heq : w ++ k = w' ++ k') : c = c' ∧ k = k' := by
  cases h with
  | plain hq hb =>
    cases h' with
    | plain => simpa using heq
    | letter | number => exact absurd (List.cons.inj heq).1 hb
  | letter hx =>
    cases h' with
    | plain _ hb => exact absurd (List.cons.inj heq).1.symm hb
    | letter =>
      simp only [List.cons_append, List.nil_append, List.cons.injEq, true_and] at heq
      exact ⟨congrArg ofLetter heq.1, heq.2⟩
    | number =>
      simp only [List.cons_append, List.cons.injEq, true_and] at heq
      exact absurd heq.1 hx
  | @number c hc =>
    cases h' with
    | plain _ hb => exact absurd (List.cons.inj heq).1.symm hb
    | letter hx =>
      simp only [List.cons_append, List.cons.injEq, true_and] at heq
      exact absurd heq.1.symm hx
    | @number c' hc' =>
      simp only [List.cons_append, List.cons.injEq, true_and] at heq
      obtain ⟨hhex, hk⟩ := List.append_inj heq (by simp [Text.hex])
      exact ⟨Char.toNat_inj.mp (hex_inj _ hc _ hc' hhex), hk⟩

/-- No character of a string is written like its closing quote. -/
lemma Written.ne_quote {c : Char} {w : List Char} (h : Written c w) : w ++ k ≠ '"' :: k' := by
  intro heq
  cases h with
  | plain hq => exact hq (List.cons.inj heq).1
  | letter | number => cases (List.cons.inj heq).1

/-- A string ends at its closing quote. -/
lemma textChars_inj {s s' : String} (h : textChars s ++ k = textChars s' ++ k') :
    s = s' ∧ k = k' := by
  have key (cs cs' : List Char) (heq : cs.flatMap textChar ++ '"' :: k
      = cs'.flatMap textChar ++ '"' :: k') : cs = cs' ∧ k = k' := by
    induction cs generalizing cs' with
    | nil =>
      cases cs' with
      | nil => simpa using heq
      | cons c' cs' =>
        rw [List.flatMap_cons, List.append_assoc] at heq
        exact absurd heq.symm (written_textChar c').ne_quote
    | cons c cs ih =>
      cases cs' with
      | nil =>
        rw [List.flatMap_cons, List.append_assoc] at heq
        exact absurd heq (written_textChar c).ne_quote
      | cons c' cs' =>
        simp only [List.flatMap_cons, List.append_assoc] at heq
        obtain ⟨rfl, hmore⟩ := (written_textChar c).inj (written_textChar c') heq
        obtain ⟨rfl, hk⟩ := ih cs' hmore
        exact ⟨rfl, hk⟩
  obtain ⟨hs, hk⟩ := key s.toList s'.toList (by simpa [textChars] using h)
  exact ⟨String.toList_inj.mp hs, hk⟩

/-! ### Numbers -/

/-- No digit goes on with a number before this text. -/
def Ends (k : List Char) : Prop := ∀ x ∈ k.head?, x.isDigit = false

/-- The digits of a number are all that stand before such a text. -/
lemma takeWhile_digits (n : Nat) (hk : Ends k) :
    ((toString n).toList ++ k).takeWhile Char.isDigit = Nat.toDigits 10 n := by
  have hdigits : ∀ x ∈ Nat.toDigits 10 n, x.isDigit = true := fun x hx =>
    Nat.isDigit_of_mem_toDigits (by decide) (by decide) hx
  have hrest : k.takeWhile Char.isDigit = [] := by
    cases k with
    | nil => rfl
    | cons x k => rw [List.takeWhile_cons, hk x rfl]; rfl
  rw [Nat.toString_eq_repr, Nat.toList_repr, List.takeWhile_append_of_pos hdigits, hrest,
    List.append_nil]

/-- A number ends where no digit follows. -/
lemma number_inj {n n' : Nat} (h : (toString n).toList ++ k = (toString n').toList ++ k')
    (hk : Ends k) (hl : Ends k') : n = n' ∧ k = k' := by
  have hdigits := congrArg (List.takeWhile Char.isDigit) h
  rw [takeWhile_digits n hk, takeWhile_digits n' hl] at hdigits
  have hn : n = n' := by
    rw [← @Nat.ofDigitChars_ten_toDigits n, hdigits, Nat.ofDigitChars_ten_toDigits]
  subst hn
  exact ⟨rfl, List.append_cancel_left h⟩

/-! ### Documents -/

/-- What a document is. -/
inductive Form where
  | null
  | number
  | text
  | list
  | object
deriving DecidableEq

/-- What a document is. -/
def form : Json → Form
  | .null => .null
  | .number _ => .number
  | .text _ => .text
  | .list _ => .list
  | .object _ => .object

/-- What a document is, as its first character tells. -/
def formOf (x : Char) : Option Form :=
  if x = 'n' then some .null
  else if x.isDigit then some .number
  else if x = '"' then some .text
  else if x = '[' then some .list
  else if x = '{' then some .object
  else none

variable {indent : Option Nat} {level : Nat}

lemma formOf_digit {x : Char} (hx : x.isDigit = true) : formOf x = some .number := by
  unfold formOf
  rw [if_neg (by rintro rfl; cases hx), if_pos hx]

/-- The first character of a document tells what it is. -/
lemma chars_head (j : Json) :
    ∃ x w, chars indent level k j = x :: w ∧ formOf x = some j.form := by
  cases j with
  | null => exact ⟨'n', _, by rw [chars], rfl⟩
  | number n =>
    have hne := @Nat.toDigits_ne_nil n 10
    rw [chars, Nat.toString_eq_repr, Nat.toList_repr]
    cases hd : Nat.toDigits 10 n with
    | nil => exact absurd hd hne
    | cons x w =>
      refine ⟨x, w ++ k, rfl, formOf_digit ?_⟩
      exact Nat.isDigit_of_mem_toDigits (by decide) (by decide) (hd ▸ List.mem_cons_self)
  | text s => exact ⟨'"', _, by rw [chars, textChars]; rfl, rfl⟩
  | list items =>
    cases items with
    | nil => exact ⟨'[', _, by rw [chars], rfl⟩
    | cons item items => exact ⟨'[', _, by rw [chars], rfl⟩
  | object members =>
    cases members with
    | nil => exact ⟨'{', _, by rw [chars], rfl⟩
    | cons member members => exact ⟨'{', _, by rw [chars], rfl⟩

lemma form_eq {j j' : Json} (h : chars indent level k j = chars indent level k' j') :
    j.form = j'.form := by
  obtain ⟨x, w, hx, hform⟩ := @chars_head k indent level j
  obtain ⟨x', w', hx', hform'⟩ := @chars_head k' indent level j'
  rw [hx, hx'] at h
  rw [(List.cons.inj h).1, hform'] at hform
  exact (Option.some.inj hform).symm

/-- Neither a digit nor a comma begins this text. -/
def Closing (k : List Char) : Prop := ∀ x ∈ k.head?, x.isDigit = false ∧ x ≠ ','

lemma Closing.ends (h : Closing k) : Ends k := fun x hx => (h x hx).1

/-- The end of a list or an object, on a line of its own or not. -/
lemma closing_gap {x : Char} (hx : x.isDigit = false ∧ x ≠ ',') :
    Closing (gap indent level ++ x :: k) := by
  cases indent with
  | none =>
    rintro _ ⟨⟩
    exact hx
  | some n =>
    rintro _ ⟨⟩
    decide

/-- A list or an object that is not empty does not begin with its closing bracket. -/
lemma gap_cons_ne {x y : Char} {w : List Char} (hn : x ≠ '\n') (hy : y ≠ x) :
    gap indent level ++ y :: w ≠ x :: k := by
  intro h
  cases indent with
  | none => exact hy (List.cons.inj h).1
  | some n => exact hn (List.cons.inj h).1.symm

lemma gap_chars_ne {j : Json} {x : Char} (hn : x ≠ '\n') (hx : formOf x = none) :
    gap indent level ++ chars indent level k j ≠ x :: k' := by
  obtain ⟨y, w, hy, hform⟩ := @chars_head k indent level j
  rw [hy]
  refine gap_cons_ne hn ?_
  rintro rfl
  rw [hx] at hform
  cases hform

lemma ends_moreItems (hk : Ends k) (items : List Json) : Ends (moreItems indent level k items) := by
  cases items with
  | nil => rwa [moreItems]
  | cons item items =>
    rw [moreItems]
    rintro _ ⟨⟩
    rfl

lemma ends_moreMembers (hk : Ends k) (members : List (String × Json)) :
    Ends (moreMembers indent level k members) := by
  cases members with
  | nil => rwa [moreMembers]
  | cons member members =>
    rw [moreMembers]
    rintro _ ⟨⟩
    rfl

mutual

/-- A text begins with one document only, unless that is a number which goes on. -/
lemma chars_inj {indent : Option Nat} {level : Nat} {k k' : List Char} (hk : Ends k)
    (hl : Ends k') : (j j' : Json) →
    chars indent level k j = chars indent level k' j' → j = j' ∧ k = k'
  | .null, j', h => by
    cases j' with
    | null => simpa [chars] using h
    | _ => cases form_eq h
  | .number n, j', h => by
    cases j' with
    | number n' =>
      rw [chars, chars] at h
      exact (number_inj h hk hl).imp_left (congrArg _)
    | _ => cases form_eq h
  | .text s, j', h => by
    cases j' with
    | text s' =>
      rw [chars, chars] at h
      exact (textChars_inj h).imp_left (congrArg _)
    | _ => cases form_eq h
  | .list items, j', h => by
    cases j' with
    | list items' => exact (items_inj items items' h).imp_left (congrArg _)
    | _ => cases form_eq h
  | .object members, j', h => by
    cases j' with
    | object members' => exact (members_inj members members' h).imp_left (congrArg _)
    | _ => cases form_eq h

/-- A list ends at its closing bracket. -/
lemma items_inj {indent : Option Nat} {level : Nat} {k k' : List Char} :
    (items items' : List Json) →
    chars indent level k (.list items) = chars indent level k' (.list items') →
      items = items' ∧ k = k'
  | [], [], h => by simpa [chars] using h
  | [], item' :: items', h => by
    rw [chars, chars] at h
    exact absurd (List.cons.inj h).2.symm (gap_chars_ne (by decide) rfl)
  | item :: items, [], h => by
    rw [chars, chars] at h
    exact absurd (List.cons.inj h).2 (gap_chars_ne (by decide) rfl)
  | item :: items, item' :: items', h => by
    rw [chars, chars] at h
    have hclosing {k : List Char} : Closing (gap indent level ++ ']' :: k) :=
      closing_gap (by decide)
    obtain ⟨rfl, hmore⟩ := chars_inj (ends_moreItems hclosing.ends _)
      (ends_moreItems hclosing.ends _) item item' (List.append_cancel_left (List.cons.inj h).2)
    obtain ⟨rfl, hrest⟩ := moreItems_inj hclosing hclosing items items' hmore
    exact ⟨rfl, (List.cons.inj (List.append_cancel_left hrest)).2⟩

/-- The items behind the first are told up to the end of the list. -/
lemma moreItems_inj {indent : Option Nat} {level : Nat} {k k' : List Char} (hk : Closing k)
    (hl : Closing k') : (items items' : List Json) →
    moreItems indent level k items = moreItems indent level k' items' → items = items' ∧ k = k'
  | [], [], h => by simpa [moreItems] using h
  | [], item' :: items', h => by
    rw [moreItems, moreItems] at h
    exact absurd rfl (hk ',' (by rw [h]; rfl)).2
  | item :: items, [], h => by
    rw [moreItems, moreItems] at h
    exact absurd rfl (hl ',' (by rw [← h]; rfl)).2
  | item :: items, item' :: items', h => by
    rw [moreItems, moreItems] at h
    obtain ⟨rfl, hmore⟩ := chars_inj (ends_moreItems hk.ends _) (ends_moreItems hl.ends _)
      item item' (List.append_cancel_left h)
    obtain ⟨rfl, hrest⟩ := moreItems_inj hk hl items items' hmore
    exact ⟨rfl, hrest⟩

/-- An object ends at its closing brace. -/
lemma members_inj {indent : Option Nat} {level : Nat} {k k' : List Char} :
    (members members' : List (String × Json)) →
    chars indent level k (.object members) = chars indent level k' (.object members') →
      members = members' ∧ k = k'
  | [], [], h => by simpa [chars] using h
  | [], (key', value') :: members', h => by
    rw [chars, chars] at h
    exact absurd (List.cons.inj h).2.symm (gap_cons_ne (by decide) (by decide))
  | (key, value) :: members, [], h => by
    rw [chars, chars] at h
    exact absurd (List.cons.inj h).2 (gap_cons_ne (by decide) (by decide))
  | (key, value) :: members, (key', value') :: members', h => by
    rw [chars, chars] at h
    have hclosing {k : List Char} : Closing (gap indent level ++ '}' :: k) :=
      closing_gap (by decide)
    obtain ⟨rfl, hvalue⟩ := textChars_inj (List.append_cancel_left (List.cons.inj h).2)
    obtain ⟨rfl, hmore⟩ := chars_inj (ends_moreMembers hclosing.ends _)
      (ends_moreMembers hclosing.ends _) value value' (List.cons.inj (List.cons.inj hvalue).2).2
    obtain ⟨rfl, hrest⟩ := moreMembers_inj hclosing hclosing members members' hmore
    exact ⟨rfl, (List.cons.inj (List.append_cancel_left hrest)).2⟩

/-- The members behind the first are told up to the end of the object. -/
lemma moreMembers_inj {indent : Option Nat} {level : Nat} {k k' : List Char} (hk : Closing k)
    (hl : Closing k') : (members members' : List (String × Json)) →
    moreMembers indent level k members = moreMembers indent level k' members' →
      members = members' ∧ k = k'
  | [], [], h => by simpa [moreMembers] using h
  | [], member' :: members', h => by
    rw [moreMembers, moreMembers] at h
    exact absurd rfl (hk ',' (by rw [h]; rfl)).2
  | member :: members, [], h => by
    rw [moreMembers, moreMembers] at h
    exact absurd rfl (hl ',' (by rw [← h]; rfl)).2
  | (key, value) :: members, (key', value') :: members', h => by
    rw [moreMembers, moreMembers] at h
    obtain ⟨rfl, hvalue⟩ := textChars_inj (List.append_cancel_left h)
    obtain ⟨rfl, hmore⟩ := chars_inj (ends_moreMembers hk.ends _) (ends_moreMembers hl.ends _)
      value value' (List.cons.inj (List.cons.inj hvalue).2).2
    obtain ⟨rfl, hrest⟩ := moreMembers_inj hk hl members members' hmore
    exact ⟨rfl, hrest⟩

end

/-- Two documents with the same text are the same. -/
theorem write_injective (indent : Option Nat) : Function.Injective (write indent) := by
  intro j j' h
  have hchars : chars indent 0 [] j = chars indent 0 [] j' := String.ofList_injective h
  exact (chars_inj (by rintro _ ⟨⟩) (by rintro _ ⟨⟩) j j' hchars).1

end StpLang.Json
