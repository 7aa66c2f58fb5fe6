/-
The places that guests are found at: a path, and a name in a directory.
Different guests have different places, apart from owners of the same name
(`Guest.Twins`). So a guest is found at its own places if none of those that
came later has the same name; and nothing else leads to it, because its
number is its own.

Paths and entries are treated alike. Each is a list of insertions in the order
in which guests were asked for, and the last insertion with some key is the
one that is found.
-/
import DiskAtlas.Proofs.Scan.Guests

namespace DiskAtlas

open Mapping

namespace Scan

variable {β : Type}

-- =============================================================== numerals

/-- A number that is not negative is written in digits, without a sign. -/
theorem toList_numeral {ino : Int64} (h : 0 ≤ ino.toInt) :
    (toString ino.toInt).toList = Nat.toDigits 10 ino.toInt.toNat := by
  obtain ⟨n, hn⟩ := Int.eq_ofNat_of_zero_le h
  rw [hn]
  exact Nat.toList_repr

/-- Files without a name are told apart by their numerals. -/
theorem numeral_injective {ino ino' : Int64} (h : 0 ≤ ino.toInt)
    (h' : 0 ≤ ino'.toInt) (heq : toString ino.toInt = toString ino'.toInt) :
    ino = ino' := by
  have hlist := congrArg String.toList heq
  rw [toList_numeral h, toList_numeral h'] at hlist
  have hnat := toDigits_injective hlist
  exact Int64.toInt_inj.1 (by omega)

/-- No directory has a number as its name. -/
theorem numeral_ne_root {ino : Int64} (h : 0 ≤ ino.toInt) :
    toString ino.toInt ≠ HiddenOwner.root.name := by
  intro heq
  have hlist := congrArg String.toList heq
  rw [toList_numeral h] at hlist
  have hdollar : '$' ∈ Nat.toDigits 10 ino.toInt.toNat :=
    hlist ▸ List.mem_cons_self
  have hdigit := Nat.isDigit_of_mem_toDigits (by decide) (by decide) hdollar
  exact absurd hdigit (by decide)

-- ================================================================= paths

namespace Guest

/-- Guests as records name them. -/
def IsProper : Guest → Prop
  | owner o => o.IsProper
  | file ino => 0 ≤ ino.toInt

theorem Admissible.isProper {x : Session β} {met : List SpecialOwner}
    {g : Guest} (h : g.Admissible x met) : g.IsProper := by
  cases g with
  | owner o => exact h.1
  | file ino => exact h.1

/-- Two special owners of the same name. -/
def Twins (g g' : Guest) : Prop :=
  ∃ o o', g = owner (.special o) ∧ g' = owner (.special o') ∧
    (SpecialOwner.Twins o o' ∨ SpecialOwner.Twins o' o)

/-- The names that lead to a guest from the directory of all. -/
def names : Guest → List String
  | owner .root => []
  | owner o => [o.name]
  | file ino => [HiddenOwner.unlinked.name, toString ino.toInt]

/-- The place of a guest is its names below the directory of all guests,
rooted. -/
theorem path_eq (g : Guest) (separator : Char) :
    g.path separator
      = rootedPath separator (HiddenOwner.root.name :: g.names) := by
  cases g with
  | owner o => cases o <;> rfl
  | file ino => rfl

theorem names_owner {o : HiddenOwner} (h : o ≠ .root) :
    (owner o).names = [o.name] := by
  cases o with
  | root => exact absurd rfl h
  | _ => rfl

/-- An owner is not found among the files without a name. -/
theorem name_ne_below_unlinked (o : HiddenOwner) (c : Char)
    (rest : List Char) :
    o.name.toList ≠ HiddenOwner.unlinked.name.toList ++ c :: rest := by
  intro h
  have hprefix : HiddenOwner.unlinked.name.toList <+: o.name.toList :=
    ⟨_, h.symm⟩
  cases o with
  | special o => exact o.not_unlinked_prefix hprefix
  | unlinked =>
    have hlength := congrArg List.length h
    rw [List.length_append, List.length_cons] at hlength
    omega
  | root | metadata | freeSpace => exact absurd hprefix (by decide)

/-- Only owners of the same name share a path. -/
theorem eq_or_twins_of_path {g g' : Guest} {separator : Char}
    (hg : g.IsProper) (hg' : g'.IsProper)
    (h : g.path separator = g'.path separator) : g = g' ∨ g.Twins g' := by
  have hlist := congrArg String.toList h
  rw [path_eq, path_eq, toList_rootedPath, toList_rootedPath,
    List.flatMap_cons, List.flatMap_cons] at hlist
  replace hlist := List.append_cancel_left hlist
  -- an owner in the directory of all and a file two directories below it
  have hmixed : ∀ (o : HiddenOwner) (ino : Int64),
      (owner o).names.flatMap (fun name => separator :: name.toList)
        ≠ (file ino).names.flatMap fun name => separator :: name.toList := by
    intro o ino heq
    by_cases hroot : o = .root
    · subst hroot
      cases heq
    · rw [names_owner hroot, List.flatMap_singleton] at heq
      have hname := (List.cons.inj heq).2
      exact name_ne_below_unlinked o separator _ hname
  cases g with
  | owner o =>
    cases g' with
    | owner o' =>
      have hname : o.name = o'.name := by
        by_cases hroot : o = .root <;> by_cases hroot' : o' = .root
        · rw [hroot, hroot']
        · subst hroot
          rw [names_owner hroot', List.flatMap_singleton] at hlist
          cases hlist
        · subst hroot'
          rw [names_owner hroot, List.flatMap_singleton] at hlist
          cases hlist
        · rw [names_owner hroot, names_owner hroot', List.flatMap_singleton,
            List.flatMap_singleton] at hlist
          exact String.toList_inj.1 (List.cons.inj hlist).2
      rcases HiddenOwner.eq_or_twins_of_name hg hg' hname with
        rfl | ⟨a, b, rfl, rfl, htwins⟩
      · exact .inl rfl
      · exact .inr ⟨a, b, rfl, rfl, htwins⟩
    | file ino' => exact absurd hlist (hmixed o ino')
  | file ino =>
    cases g' with
    | owner o' => exact absurd hlist.symm (hmixed o' ino)
    | file ino' =>
      left
      simp only [names, List.flatMap_cons] at hlist
      replace hlist := List.append_cancel_left hlist
      rw [List.flatMap_nil, List.append_nil, List.append_nil] at hlist
      have hnumeral := String.toList_inj.1 (List.cons.inj hlist).2
      exact congrArg file (numeral_injective hg hg' hnumeral)

-- =============================================================== entries

/-- An entry leads to the guest that it is of. -/
theorem number_of_entry {g : Guest} {top : Option Int64}
    {met : List SpecialOwner} {directory ino : Int64} {name : String}
    (h : g.entry top met = some (directory, name, ino)) :
    ino = g.number met := by
  cases g with
  | file i =>
    obtain ⟨-, -, rfl⟩ := by simpa [entry] using h
    rfl
  | owner o =>
    by_cases hroot : o = .root
    · subst hroot
      obtain ⟨d, -, hd⟩ := Option.map_eq_some_iff.1 h
      obtain ⟨-, -, rfl⟩ := by simpa using hd
      rfl
    · rw [entry_owner hroot] at h
      obtain ⟨-, -, rfl⟩ := by simpa using h
      rfl

/-- Only owners of the same name share an entry. -/
theorem eq_or_twins_of_entry {g g' : Guest} {top : Option Int64}
    {met : List SpecialOwner} (hg : g.IsProper) (hg' : g'.IsProper)
    {directory ino ino' : Int64} {name : String}
    (h : g.entry top met = some (directory, name, ino))
    (h' : g'.entry top met = some (directory, name, ino')) :
    g = g' ∨ g.Twins g' := by
  -- the entry of an owner has its name, and that of most is in one directory
  have howner : ∀ (o : HiddenOwner) (i : Int64),
      (owner o).entry top met = some (directory, name, i) →
        name = o.name ∧ (o = .root ∨ directory = -1) := by
    intro o i ho
    by_cases hroot : o = .root
    · subst hroot
      obtain ⟨d, -, hd⟩ := Option.map_eq_some_iff.1 ho
      obtain ⟨-, hname, -⟩ := by simpa using hd
      exact ⟨hname.symm, .inl rfl⟩
    · rw [entry_owner hroot] at ho
      obtain ⟨rfl, rfl, -⟩ := by simpa using ho
      exact ⟨rfl, .inr rfl⟩
  have hmixed : ∀ (o : HiddenOwner) (i j : Int64) (b : Int64),
      0 ≤ b.toInt → (owner o).entry top met = some (directory, name, i) →
        (file b).entry top met ≠ some (directory, name, j) := by
    intro o i j b hb ho hfile
    obtain ⟨rfl, rfl, rfl⟩ : -4 = directory ∧ toString b.toInt = name ∧
      b = j := by simpa [entry] using hfile
    obtain ⟨hname, rfl | hdirectory⟩ := howner o i ho
    · exact numeral_ne_root hb hname
    · exact absurd hdirectory (by decide)
  cases g with
  | owner o =>
    cases g' with
    | owner o' =>
      have hname := (howner o ino h).1.symm.trans (howner o' ino' h').1
      rcases HiddenOwner.eq_or_twins_of_name hg hg' hname with
        rfl | ⟨a, b, rfl, rfl, htwins⟩
      · exact .inl rfl
      · exact .inr ⟨a, b, rfl, rfl, htwins⟩
    | file b => exact absurd h' (hmixed o ino ino' b hg' h)
  | file a =>
    cases g' with
    | owner o' => exact absurd h (hmixed o' ino' ino a hg h')
    | file b =>
      left
      simp only [entry, Option.some.injEq, Prod.mk.injEq] at h h'
      have hnumeral := h.2.1.trans h'.2.1.symm
      exact congrArg file (numeral_injective hg hg' hnumeral)

end Guest

end Scan

-- ============================================================ directories

namespace Session

variable {β : Type}

/-- What a name stands for in a directory. -/
def named? (x : Session β) (directory : Int64) (name : String) :
    Option Int64 :=
  (x.store.tables.directories.get? directory).bind (·.get? name)

theorem named?_insertDirectory (x : Session β) (directory ino : Int64)
    (name : String) :
    (x.insertDirectory directory [(name, ino)]).named? directory name
      = some ino := by
  show ((x.store.tables.directories.insert directory _).get? directory).bind
    _ = _
  rw [SortedMap.get?_insert_self]
  exact SortedMap.get?_insert_self _ _ _

theorem named?_insertDirectory_of_ne (x : Session β) {directory d : Int64}
    {name n : String} (ino : Int64) (h : ¬ (directory = d ∧ name = n)) :
    (x.insertDirectory directory [(name, ino)]).named? d n
      = x.named? d n := by
  show ((x.store.tables.directories.insert directory _).get? d).bind _ = _
  by_cases hd : directory = d
  · subst hd
    rw [SortedMap.get?_insert_self]
    have hname := SortedMap.get?_insert_of_ne
      ((x.store.tables.directories.get? directory).getD .empty) ino
      fun hn => h ⟨rfl, hn⟩
    refine hname.trans ?_
    unfold named?
    cases x.store.tables.directories.get? directory with
    | none => rfl
    | some names => rfl
  · rw [SortedMap.get?_insert_of_ne _ _ hd]
    rfl

end Session

namespace Scan

variable {β : Type}

/-- A session with names put into directories, one after the other. -/
def putNames (names : List (Int64 × String × Int64)) (x : Session β) :
    Session β :=
  names.foldl (fun x (directory, name, ino) =>
    x.insertDirectory directory [(name, ino)]) x

section PutNames

variable {x : Session β} {names pre post : List (Int64 × String × Int64)}
  {directory ino : Int64} {name : String}

theorem putNames_cons (x : Session β) (directory ino : Int64) (name : String)
    (names : List (Int64 × String × Int64)) :
    putNames ((directory, name, ino) :: names) x
      = putNames names (x.insertDirectory directory [(name, ino)]) := rfl

/-- An entry comes from the names that were put in, or was there before. -/
theorem named?_putNames_cases
    (h : (putNames names x).named? directory name = some ino) :
    (directory, name, ino) ∈ names ∨ x.named? directory name = some ino := by
  induction names generalizing x with
  | nil => exact .inr h
  | cons e rest ih =>
    obtain ⟨d, n, i⟩ := e
    rw [putNames_cons] at h
    rcases ih h with hrest | hfirst
    · exact .inl (List.mem_cons_of_mem _ hrest)
    · by_cases hsame : d = directory ∧ n = name
      · obtain ⟨rfl, rfl⟩ := hsame
        rw [Session.named?_insertDirectory] at hfirst
        obtain rfl := Option.some_inj.1 hfirst
        exact .inl List.mem_cons_self
      · rw [Session.named?_insertDirectory_of_ne _ _ hsame] at hfirst
        exact .inr hfirst

theorem named?_putNames_of_not_mem
    (h : ∀ e ∈ names, ¬ (e.1 = directory ∧ e.2.1 = name)) :
    (putNames names x).named? directory name = x.named? directory name := by
  induction names generalizing x with
  | nil => rfl
  | cons e rest ih =>
    obtain ⟨d, n, i⟩ := e
    rw [putNames_cons, ih fun e he => h e (List.mem_cons_of_mem _ he)]
    exact Session.named?_insertDirectory_of_ne _ _
      (h (d, n, i) List.mem_cons_self)

/-- Of several entries of a name the last one counts. -/
theorem named?_putNames_of_last
    (h : ∀ e ∈ post, ¬ (e.1 = directory ∧ e.2.1 = name)) :
    (putNames (pre ++ (directory, name, ino) :: post) x).named?
      directory name = some ino := by
  rw [putNames, List.foldl_append]
  exact (named?_putNames_of_not_mem h).trans
    (Session.named?_insertDirectory _ _ _ _)

/-- Names in directories are all that is new. -/
theorem putNames_eq (names : List (Int64 × String × Int64))
    (x : Session β) :
    ∃ directories, putNames names x
      = x.withTables { x.store.tables with directories } := by
  induction names generalizing x with
  | nil => exact ⟨_, rfl⟩
  | cons e rest ih =>
    obtain ⟨directories, h⟩ := ih (x.insertDirectory e.1 [(e.2.1, e.2.2)])
    exact ⟨directories, h⟩

/-- Names in directories are put in at the end, and nothing else. -/
theorem DevicePass.withNames_eq (p : DevicePass β) :
    ∃ directories, p.withNames = p.session.withTables
      { p.session.store.tables with directories } :=
  putNames_eq p.names p.session

end PutNames

-- ================================================================ finding

namespace Hosts

variable {x y : Session β} {met : List SpecialOwner}
  {asked pre post : List Guest} {names : List (Int64 × String × Int64)}
  {g : Guest}

/-- Whoever comes behind a guest is another one. -/
theorem ne_of_behind (h : asked.eraseDups = pre ++ g :: post) {g' : Guest}
    (hg' : g' ∈ post) : g ≠ g' := by
  have hnodup := nodup_eraseDups asked
  rw [h] at hnodup
  have hbehind := (List.nodup_append.1 hnodup).2.1
  exact fun heq => (List.nodup_cons.1 hbehind).1 (heq ▸ hg')

theorem isProper (h : Hosts x met asked y names)
    (hg : g ∈ asked.eraseDups) : g.IsProper :=
  (h.admissible g (List.mem_eraseDups.1 hg)).isProper

/-- A guest is found under its path if no later one has its name. -/
theorem lookupPath_of_last (h : Hosts x met asked y names)
    (hsplit : asked.eraseDups = pre ++ g :: post)
    (hlast : ∀ g' ∈ post, ¬ g.Twins g') :
    y.lookupPath (g.path x.separator) = some (g.number met) := by
  have hmem : ∀ g' ∈ g :: post, g' ∈ asked.eraseDups := fun g' hg' =>
    hsplit ▸ List.mem_append_right _ hg'
  unfold Session.lookupPath
  rw [h.paths_eq, hsplit, List.map_append, List.map_cons]
  refine SortedMap.get?_insertMany_of_last _ fun e he hpath => ?_
  obtain ⟨g', hg', rfl⟩ := List.mem_map.1 he
  rcases Guest.eq_or_twins_of_path (h.isProper (hmem g List.mem_cons_self))
    (h.isProper (hmem g' (List.mem_cons_of_mem _ hg'))) hpath.symm with
    heq | htwins
  · exact ne_of_behind hsplit hg' heq
  · exact hlast g' hg' htwins

/-- A guest is not found under its path if a later one has it too. -/
theorem lookupPath_ne_of_later (h : Hosts x met asked y names)
    (hmet : Guest.Numbered met) (hsplit : asked.eraseDups = pre ++ g :: post)
    {g' : Guest} (hg' : g' ∈ post)
    (hpath : g'.path x.separator = g.path x.separator) :
    y.lookupPath (g.path x.separator) ≠ some (g.number met) := by
  have hmem : ∀ g' ∈ g :: post, g' ∈ asked := fun g' hg' =>
    List.mem_eraseDups.1 (hsplit ▸ List.mem_append_right _ hg')
  have hlater : ∃ e ∈ post.map fun g => (g.path x.separator, g.number met),
      e.1 = g.path x.separator := ⟨_, List.mem_map_of_mem hg', hpath⟩
  unfold Session.lookupPath
  rw [h.paths_eq, hsplit, List.append_cons, List.map_append,
    SortedMap.insertMany_append]
  obtain ⟨number, hnumber, hget⟩ := SortedMap.exists_get?_insertMany
    (x.store.tables.paths.insertMany ((pre ++ [g]).map fun g =>
      (g.path x.separator, g.number met))) hlater
  obtain ⟨other, hother, hentry⟩ := List.mem_map.1 hnumber
  obtain ⟨-, rfl⟩ := Prod.mk.inj hentry
  rw [hget]
  intro hsame
  have heq := Guest.number_injective hmet
    (h.admissible _ (hmem _ (List.mem_cons_of_mem _ hother)))
    (h.admissible _ (hmem _ List.mem_cons_self)) (Option.some_inj.1 hsame)
  exact ne_of_behind hsplit hother heq.symm

/-- A guest is found in its directory if no later one has its name. -/
theorem named?_of_last (h : Hosts x met asked y names)
    (hsplit : asked.eraseDups = pre ++ g :: post)
    (hlast : ∀ g' ∈ post, ¬ g.Twins g') {directory ino : Int64}
    {name : String}
    (hentry : g.entry (x.lookupPath "") met = some (directory, name, ino)) :
    (putNames names y).named? directory name = some ino := by
  have hmem : ∀ g' ∈ g :: post, g' ∈ asked.eraseDups := fun g' hg' =>
    hsplit ▸ List.mem_append_right _ hg'
  rw [h.names_eq, hsplit, List.filterMap_append,
    List.filterMap_cons_some hentry]
  refine named?_putNames_of_last ?_
  rintro ⟨d, n, i⟩ he ⟨rfl, rfl⟩
  obtain ⟨g', hg', hentry'⟩ := List.mem_filterMap.1 he
  rcases Guest.eq_or_twins_of_entry
    (h.isProper (hmem g List.mem_cons_self))
    (h.isProper (hmem g' (List.mem_cons_of_mem _ hg'))) hentry hentry' with
    heq | htwins
  · exact ne_of_behind hsplit hg' heq
  · exact hlast g' hg' htwins

variable (hmet : Guest.Numbered met)

include hmet

/-- A guest has a row of its own, about which nothing is known. -/
theorem get?_inodes (h : Hosts x met asked y names) (hg : g ∈ asked) :
    y.store.tables.inodes.get? (g.number met)
      = some (.bare (g.number met) g.kind) := by
  rw [h.inodes_eq]
  refine SortedMap.get?_insertMany_of_mem _
    (List.mem_map.2 ⟨g, List.mem_eraseDups.2 hg, rfl⟩) fun e he hkey => ?_
  obtain ⟨g', hg', rfl⟩ := List.mem_map.1 he
  have heq := Guest.number_injective hmet
    (h.admissible g' (List.mem_eraseDups.1 hg')) (h.admissible g hg) hkey
  rw [heq]

/-- No path leads to a guest but its own, and those that led to its number
before. -/
theorem lookupPath_cases (h : Hosts x met asked y names) (hg : g ∈ asked)
    {path : String} (hpath : y.lookupPath path = some (g.number met)) :
    path = g.path x.separator ∨
      x.lookupPath path = some (g.number met) := by
  unfold Session.lookupPath at hpath
  rw [h.paths_eq] at hpath
  rcases SortedMap.get?_insertMany_cases hpath with hnew | hold
  · obtain ⟨g', hg', hentry⟩ := List.mem_map.1 hnew
    obtain ⟨rfl, hnumber⟩ := Prod.mk.inj hentry
    have heq := Guest.number_injective hmet
      (h.admissible g' (List.mem_eraseDups.1 hg')) (h.admissible g hg) hnumber
    exact .inl (heq ▸ rfl)
  · exact .inr hold

/-- No name stands for a guest but its own, and those that stood for its
number before. -/
theorem named?_cases (h : Hosts x met asked y names) (hg : g ∈ asked)
    {directory : Int64} {name : String}
    (hname : (putNames names y).named? directory name
      = some (g.number met)) :
    g.entry (x.lookupPath "") met
        = some (directory, name, g.number met) ∨
      x.named? directory name = some (g.number met) := by
  rcases named?_putNames_cases hname with hnew | hold
  · rw [h.names_eq] at hnew
    obtain ⟨g', hg', hentry⟩ := List.mem_filterMap.1 hnew
    have hnumber := Guest.number_of_entry hentry
    have heq := Guest.number_injective hmet
      (h.admissible g' (List.mem_eraseDups.1 hg')) (h.admissible g hg)
      hnumber.symm
    exact .inl (heq ▸ hentry)
  · right
    unfold Session.named? at hold ⊢
    rw [← h.directories_eq]
    exact hold

end Hosts

end Scan

end DiskAtlas
