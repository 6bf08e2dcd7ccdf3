import Mathlib.Data.List.Infix
import Mathlib.Tactic.Lemma
import StpLang.Command.Disk

/-!
Writing a file and reading it again.

A path may lead to any place of the disk, whatever the working directory is. A text can be
written to a place where there is no folder, and nothing else on the disk changes.

* `Disk.Writable` says that a path leads to a place where a text can be written.
* `Disk.locate_pathOf`: in a folder, every place has a path from the root.
* `Disk.write_of_ne_device`: where a text can be written, every text is put.
* `Disk.read_put` and `Disk.read_put_ne`: a file that has been put at a place holds its
  bytes, and all others hold what they held before.
-/

namespace StpLang

namespace Disk

variable {d d' : Disk} {place path : List String} {bytes : List UInt8} {e : Entry}

/-- A path leads to a place where a text can be written: a file, the device, or nothing. -/
structure Writable (d : Disk) (name : String) (place : List String) : Prop where
  leads : d.locate name = .ok place
  named : endsInSlash name = false
  free : d.entryAt? place ≠ some .folder

/-! ### What stands on a disk -/

/-- Where there is no file, there may be the device or a folder. -/
lemma entryAt?_of_lookup_eq_none (h : d.files.lookup path = none) :
    d.entryAt? path = if path = nullDevice then some .device
      else if ∃ p ∈ d.known, path <+: p then some .folder else none := by
  simp [entryAt?, h]

lemma entryAt?_eq_file :
    d.entryAt? path = some (.file bytes) ↔ d.files.lookup path = some bytes := by
  cases hl : d.files.lookup path with
  | some content => simp [entryAt?, hl]
  | none =>
    rw [entryAt?_of_lookup_eq_none hl]
    split_ifs <;> simp

lemma entryAt?_eq_device :
    d.entryAt? path = some .device ↔ d.files.lookup path = none ∧ path = nullDevice := by
  cases hl : d.files.lookup path with
  | some content => simp [entryAt?, hl]
  | none =>
    rw [entryAt?_of_lookup_eq_none hl]
    split_ifs with hdevice <;> simp [hdevice]

lemma entryAt?_eq_folder :
    d.entryAt? path = some .folder ↔
      d.files.lookup path = none ∧ path ≠ nullDevice ∧ ∃ p ∈ d.known, path <+: p := by
  cases hl : d.files.lookup path with
  | some content => simp [entryAt?, hl]
  | none =>
    rw [entryAt?_of_lookup_eq_none hl]
    split_ifs with hdevice hknown
    · simp [hdevice]
    · simp [hdevice, hknown]
    · simp [hdevice, hknown]

lemma lookup_filter_ne {files : List (List String × List UInt8)} (hne : path ≠ place) :
    (files.filter (·.1 != place)).lookup path = files.lookup path := by
  induction files with
  | nil => rfl
  | cons file files ih =>
    obtain ⟨name, bytes⟩ := file
    rw [List.filter_cons, List.lookup_cons]
    by_cases hname : name = place
    · have hpath : (path == name) = false := by
        rw [hname]
        exact beq_eq_false_iff_ne.mpr hne
      simp [hname ▸ hpath, hname, ih]
    · simp [hname, List.lookup_cons, ih]

lemma lookup_put_ne (hne : path ≠ place) :
    (d.put place bytes).files.lookup path = d.files.lookup path := by
  rw [put, List.lookup_cons, beq_eq_false_iff_ne.mpr hne, lookup_filter_ne hne]

/-- What is known is still known when a file is put somewhere. -/
lemma known_put (h : path ∈ d.known) : path ∈ (d.put place bytes).known := by
  rcases List.mem_append.mp h with hfolder | hfile
  · exact List.mem_append_left _ hfolder
  · refine List.mem_append_right _ ?_
    obtain ⟨file, hmem, rfl⟩ := List.mem_map.mp hfile
    by_cases hplace : file.1 = place
    · exact List.mem_map.mpr ⟨(place, bytes), List.mem_cons_self, hplace.symm⟩
    · refine List.mem_map.mpr ⟨file, List.mem_cons_of_mem _ ?_, rfl⟩
      exact List.mem_filter.mpr ⟨hmem, by simpa using hplace⟩

@[simp]
lemma entryAt?_put (d : Disk) (place : List String) (bytes : List UInt8) :
    (d.put place bytes).entryAt? place = some (.file bytes) :=
  entryAt?_eq_file.mpr List.lookup_cons_self

/-- What stands elsewhere still stands there when a file is put at a place. -/
lemma entryAt?_put_ne (hne : path ≠ place) (h : d.entryAt? path = some e) :
    (d.put place bytes).entryAt? path = some e := by
  cases e with
  | file content => rwa [entryAt?_eq_file, lookup_put_ne hne, ← entryAt?_eq_file]
  | device => rwa [entryAt?_eq_device, lookup_put_ne hne, ← entryAt?_eq_device]
  | folder =>
    obtain ⟨hl, hdevice, p, hp, hprefix⟩ := entryAt?_eq_folder.mp h
    rw [entryAt?_eq_folder, lookup_put_ne hne]
    exact ⟨hl, hdevice, p, known_put hp, hprefix⟩

/-- Folders stay folders when a file is put where there was no folder. -/
lemma entryAt?_put_folder (hfree : d.entryAt? place ≠ some .folder)
    (h : d.entryAt? path = some .folder) :
    (d.put place bytes).entryAt? path = some .folder :=
  entryAt?_put_ne (fun heq => hfree (heq ▸ h)) h

/-! ### Where a path leads -/

/-- A name that is not the last one leads to a folder, and the others go on from there. -/
lemma walk_cons_eq_ok {here rest : List String} {name : String} (hne : rest ≠ []) :
    d.walk here (name :: rest) = .ok place ↔ name.utf8ByteSize ≤ maxName
      ∧ d.entryAt? (follow here name) = some .folder
      ∧ d.walk (follow here name) rest = .ok place := by
  have hlast : rest.isEmpty = false := by simpa using hne
  rw [walk, hlast, if_neg (c := false = true) Bool.false_ne_true]
  by_cases hlong : name.utf8ByteSize > maxName
  · rw [if_pos hlong]
    exact ⟨nofun, fun h => absurd h.1 (Nat.not_le.mpr hlong)⟩
  · rw [if_neg hlong]
    have hshort := Nat.not_lt.mp hlong
    cases hentry : d.entryAt? (follow here name) with
    | none => exact ⟨nofun, fun h => nomatch h.2.1⟩
    | some entry =>
      cases entry with
      | folder => exact ⟨fun h => ⟨hshort, rfl, h⟩, fun h => h.2.2⟩
      | file content => exact ⟨nofun, fun h => nomatch h.2.1⟩
      | device => exact ⟨nofun, fun h => nomatch h.2.1⟩

/-- Of the last name nothing needs to be there. -/
lemma walk_singleton_eq_ok {here : List String} {name : String} :
    d.walk here [name] = .ok place ↔
      name.utf8ByteSize ≤ maxName ∧ follow here name = place := by
  rw [walk]
  by_cases hlong : name.utf8ByteSize > maxName
  · rw [if_pos hlong]
    exact ⟨nofun, fun h => absurd h.1 (Nat.not_le.mpr hlong)⟩
  · rw [if_neg hlong]
    exact ⟨fun h => ⟨Nat.not_lt.mp hlong, Except.ok.inj h⟩, fun h => congrArg _ h.2⟩

/-- The same way leads to the same place when the folders on it stay. -/
lemma walk_mono (h : ∀ p, d.entryAt? p = some .folder → d'.entryAt? p = some .folder)
    {here names : List String} (hw : d.walk here names = .ok place) :
    d'.walk here names = .ok place := by
  induction names generalizing here with
  | nil => exact hw
  | cons name rest ih =>
    by_cases hlast : rest = []
    · subst hlast
      rw [walk_singleton_eq_ok] at hw ⊢
      exact hw
    · rw [walk_cons_eq_ok hlast] at hw ⊢
      obtain ⟨hshort, hfolder, hrest⟩ := hw
      exact ⟨hshort, h _ hfolder, ih hrest⟩

lemma locate_eq {name : String} (hnull : hasNull name = false)
    (hshort : name.utf8ByteSize ≤ maxPath) (hfilled : name ≠ "") :
    d.locate name = d.walk (if isAbsolute name then [] else d.here) (names name) := by
  have hempty : name.isEmpty = false := by simpa using hfilled
  rw [locate, hnull, hempty, if_neg Bool.false_ne_true, if_neg (by omega),
    if_neg Bool.false_ne_true]

/-- A path leads where its names lead, from the root or from the working directory. -/
lemma locate_eq_ok {name : String} :
    d.locate name = .ok place ↔ hasNull name = false ∧ name.utf8ByteSize ≤ maxPath ∧ name ≠ ""
      ∧ d.walk (if isAbsolute name then [] else d.here) (names name) = .ok place := by
  constructor
  · intro h
    have hnull : hasNull name = false := by
      by_contra hnull
      rw [locate, if_pos (by simpa using hnull)] at h
      cases h
    have hshort : name.utf8ByteSize ≤ maxPath := by
      by_contra hlong
      rw [locate, hnull, if_neg Bool.false_ne_true, if_pos (by omega)] at h
      cases h
    have hfilled : name ≠ "" := by
      rintro rfl
      cases h
    exact ⟨hnull, hshort, hfilled, locate_eq hnull hshort hfilled ▸ h⟩
  · rintro ⟨hnull, hshort, hfilled, hw⟩
    rw [locate_eq hnull hshort hfilled, hw]

/-- A path leads to the same place when the folders stay. -/
lemma locate_mono (hhere : d'.here = d.here)
    (h : ∀ p, d.entryAt? p = some .folder → d'.entryAt? p = some .folder) {name : String}
    (hl : d.locate name = .ok place) : d'.locate name = .ok place := by
  rw [locate_eq_ok] at hl ⊢
  rw [hhere]
  exact ⟨hl.1, hl.2.1, hl.2.2.1, walk_mono h hl.2.2.2⟩

/-! ### The path of a place -/

/-- A name that a path can hold. -/
structure IsName (name : String) : Prop where
  filled : name ≠ ""
  plain : '/' ∉ name.toList ∧ Char.ofNat 0 ∉ name.toList
  proper : name ≠ "." ∧ name ≠ ".."
  short : name.utf8ByteSize ≤ maxName

/-- The path of a place from the root. -/
def pathOf (place : List String) : String :=
  String.ofList (place.flatMap ('/' :: ·.toList))

lemma follow_of_isName {name : String} (h : IsName name) : follow place name = place ++ [name] := by
  simp [follow, h.proper]

/-- A path from the root falls apart at its slashes into the names of the place. -/
lemma splitOn_pathOf (h : ∀ name ∈ place, IsName name) :
    (pathOf place).toList.splitOn '/' = [] :: place.map String.toList := by
  rw [pathOf, String.toList_ofList]
  induction place using List.reverseRecOn with
  | nil => rfl
  | append_singleton folder name ih =>
    have hname : IsName name := h name (List.mem_append_right _ (List.mem_singleton_self name))
    rw [List.flatMap_append, List.flatMap_singleton, List.splitOn_append_cons_self,
      ih fun n hn => h n (List.mem_append_left _ hn), List.splitOn_eq_singleton hname.plain.1,
      List.map_append, List.cons_append, List.map_singleton]

lemma names_pathOf (h : ∀ name ∈ place, IsName name) : names (pathOf place) = place := by
  have hfilled : ∀ cs ∈ place.map String.toList, (!cs.isEmpty) = true := by
    intro cs hcs
    obtain ⟨name, hname, rfl⟩ := List.mem_map.mp hcs
    simpa using (h name hname).filled
  rw [names, splitOn_pathOf h, List.filter_cons_of_neg (by simp), List.filter_eq_self.mpr hfilled,
    List.map_map]
  simp

lemma hasNull_pathOf (h : ∀ name ∈ place, IsName name) : hasNull (pathOf place) = false := by
  rw [hasNull, List.contains_eq_mem, decide_eq_false_iff_not, pathOf, String.toList_ofList]
  intro hmem
  obtain ⟨name, hname, hnull⟩ := List.mem_flatMap.mp hmem
  rcases List.mem_cons.mp hnull with hslash | hnull
  · cases hslash
  · exact (h name hname).plain.2 hnull

lemma endsInSlash_pathOf {folder : List String} {name : String} (h : IsName name) :
    endsInSlash (pathOf (folder ++ [name])) = false := by
  have hne : name.toList ≠ [] := by simpa using h.filled
  rw [endsInSlash, pathOf, String.toList_ofList, List.flatMap_append, List.flatMap_singleton,
    List.getLast?_append_cons, List.getLast?_cons, List.getLast?_eq_some_getLast hne]
  refine beq_eq_false_iff_ne.mpr fun hslash => h.plain.1 ?_
  rw [← Option.some.inj hslash]
  exact List.getLast_mem hne

/-- Through folders names lead to the place that they name. -/
lemma walk_of_folders {here names : List String} {name : String} (hname : IsName name)
    (hnames : ∀ n ∈ names, IsName n)
    (hfolders : ∀ p, p <+: names → d.entryAt? (here ++ p) = some .folder) :
    d.walk here (names ++ [name]) = .ok (here ++ (names ++ [name])) := by
  induction names generalizing here with
  | nil => exact walk_singleton_eq_ok.mpr ⟨hname.short, follow_of_isName hname⟩
  | cons next names ih =>
    have hnext := hnames next List.mem_cons_self
    rw [List.cons_append, walk_cons_eq_ok (List.concat_ne_nil name names),
      follow_of_isName hnext]
    refine ⟨hnext.short, hfolders [next] (List.prefix_append [next] names), ?_⟩
    rw [List.append_cons here next (names ++ [name])]
    refine ih (fun n hn => hnames n (List.mem_cons_of_mem _ hn)) fun p hp => ?_
    rw [← List.append_cons here next]
    exact hfolders (next :: p) (List.cons_prefix_cons.mpr ⟨rfl, hp⟩)

/-- **Every place in a folder has a path from the root**, whatever the working directory
is. -/
theorem locate_pathOf {folder : List String} {name : String} (hname : IsName name)
    (hnames : ∀ n ∈ folder, IsName n)
    (hfolders : ∀ p, p <+: folder → d.entryAt? p = some .folder)
    (hshort : (pathOf (folder ++ [name])).utf8ByteSize ≤ maxPath) :
    d.locate (pathOf (folder ++ [name])) = .ok (folder ++ [name]) := by
  have hall : ∀ n ∈ folder ++ [name], IsName n := by
    simpa [or_imp, forall_and] using ⟨hnames, hname⟩
  have habsolute : isAbsolute (pathOf (folder ++ [name])) = true := by
    rw [isAbsolute, pathOf, String.toList_ofList]
    cases folder <;> rfl
  have hfilled : pathOf (folder ++ [name]) ≠ "" := by
    intro hempty
    rw [hempty] at habsolute
    cases habsolute
  rw [locate_eq_ok, habsolute, if_pos rfl, names_pathOf hall]
  exact ⟨hasNull_pathOf hall, hshort, hfilled, walk_of_folders hname hnames hfolders⟩

/-! ### Reading what has been written -/

/-- To the device nothing is written. -/
lemma write_of_device {name : String} (h : d.Writable name place)
    (hdevice : d.entryAt? place = some .device) (text : String) : d.write name text = .ok d := by
  simp only [write, h.leads, h.named, hdevice, bind, Except.bind]
  rfl

/-- Anywhere else a text is put at the place to which the path leads. -/
lemma write_of_ne_device {name : String} (h : d.Writable name place)
    (hdevice : d.entryAt? place ≠ some .device) (text : String) :
    d.write name text = .ok (d.put place text.toUTF8.toList) := by
  simp only [write, h.leads, h.named, bind, Except.bind]
  cases he : d.entryAt? place with
  | none => rfl
  | some entry =>
    cases entry with
    | file content => rfl
    | folder => exact absurd he h.free
    | device => exact absurd he hdevice

lemma read_eq_ok {name : String} :
    d.read name = .ok bytes ↔ endsInSlash name = false ∧ ∃ place, d.locate name = .ok place
      ∧ (d.entryAt? place = some (.file bytes) ∨ d.entryAt? place = some .device ∧ bytes = []) := by
  cases hl : d.locate name with
  | error f => simp [read, hl, bind, Except.bind]
  | ok place =>
    simp only [read, hl, bind, Except.bind]
    cases he : d.entryAt? place with
    | none => simp [he]
    | some entry =>
      cases entry with
      | folder => simp [he]
      | file content => cases endsInSlash name <;> simp [he, pure, Except.pure, eq_comm]
      | device => cases endsInSlash name <;> simp [he, pure, Except.pure, eq_comm]

lemma locate_put (hfree : d.entryAt? place ≠ some .folder) {name : String} {target : List String}
    (h : d.locate name = .ok target) : (d.put place bytes).locate name = .ok target := by
  have hhere : (d.put place bytes).here = d.here := rfl
  exact locate_mono hhere (fun _ => entryAt?_put_folder hfree) h

/-- What has been put at a place is read there. -/
lemma read_put {name : String} (h : d.Writable name place) :
    (d.put place bytes).read name = .ok bytes :=
  read_eq_ok.mpr ⟨h.named, place, locate_put h.free h.leads, .inl (entryAt?_put d place bytes)⟩

/-- All other files hold what they held before. -/
lemma read_put_ne {name other : String} {content : List UInt8} (h : d.Writable name place)
    (hother : d.read other = .ok content) (hne : d.locate other ≠ .ok place) :
    (d.put place bytes).read other = .ok content := by
  obtain ⟨hslash, target, hl, hentry⟩ := read_eq_ok.mp hother
  have htarget : target ≠ place := fun heq => hne (heq ▸ hl)
  exact read_eq_ok.mpr ⟨hslash, target, locate_put h.free hl,
    hentry.imp (entryAt?_put_ne htarget) (And.imp_left (entryAt?_put_ne htarget))⟩

end Disk

end StpLang
