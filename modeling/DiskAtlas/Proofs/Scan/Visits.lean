/-
Where a walk of a device goes. `Reaches` says it without the order of the
walk: the root is reached, and so is each entry of a directory that is
reached, if it is on the device and has an inode. `Tree.visits` says it in
the order of the walk and without its stack, by recursion on the tree: an
object comes before what is below it, and the entries of a directory come
in the order of their names. These are the visits to what is reached
(`mem_visits`).

Names that are not empty and hold no separator can be read off a path again
(`childPath_inj`), so in a tree where the entries of a directory have
different names a path leads to one object only (`Regular.reaches_inj`).
-/
import Mathlib.Data.List.Nodup
import DiskAtlas.Scan.Tree
import DiskAtlas.Proofs.Store.Filling
import DiskAtlas.Proofs.Text.Split

namespace DiskAtlas.Scan

open Mapping

variable {σ : Type}

namespace Tree

def entries : Tree σ → List (Tree σ)
  | lost _ => []
  | object _ _ entries => entries

/-- Can its entries be listed, if it is a directory? -/
def isListable : Tree σ → Bool
  | lost _ => false
  | object _ facts _ => facts.listable

/-- The names and inodes of the entries that a walk goes to. -/
def namesOn (device : UInt64) (entries : List (Tree σ)) :
    List (String × Int64) :=
  entries.filterMap fun t => (t.inodeOn device).map fun i => (t.name, i.ino)

/-- The visit to an object under a path. -/
def visitAt (device : UInt64) (separator : Char) (path : String)
    (inode : Inode) : Tree σ → Visit σ
  | lost _ => ⟨path, inode, none, [], 0⟩
  | object _ facts entries =>
    Pending.visit device separator ⟨path, inode, facts, entries⟩

/-- A directory whose entries can all be told about. Their names differ,
and no separator stands in them. -/
structure Legible (separator : Char) (t : Tree σ) : Prop where
  listable : t.isListable = true
  found : ∀ u ∈ t.entries, u.isLost = false
  named : ∀ u ∈ t.entries, u.name ≠ "" ∧ separator ∉ u.name.toList
  apart : (t.entries.map name).Nodup

end Tree

/-- What a walk comes to from an object that is under the path `start`: the
path, what is there, and its inode. What is on another device or has no
inode is not reached, nor is anything below it. -/
inductive Reaches (device : UInt64) (separator : Char) (root : Tree σ)
    (start : String) : String → Tree σ → Inode → Prop where
  | root {inode : Inode} (h : root.inodeOn device = some inode) :
      Reaches device separator root start start root inode
  | entry {path : String} {t u : Tree σ} {inode inode' : Inode}
      (above : Reaches device separator root start path t inode)
      (opens : inode.kind = .directory) (mem : u ∈ t.entries)
      (h : u.inodeOn device = some inode') :
      Reaches device separator root start
        (childPath separator path u.name) u inode'

/-- A tree that is fit to be walked: every directory that is reached can be
read, and one that is reached in two ways has the same entries in both. -/
structure Regular (device : UInt64) (separator : Char) (root : Tree σ) :
    Prop where
  legible : ∀ {path t inode},
    Reaches device separator root "" path t inode →
      inode.kind = .directory → t.Legible separator
  same : ∀ {path path' t t' inode inode'},
    Reaches device separator root "" path t inode →
      Reaches device separator root "" path' t' inode' →
        inode.kind = .directory → inode'.kind = .directory →
          inode'.ino = inode.ino → ∀ e ∈ Tree.namesOn device t'.entries,
            e ∈ Tree.namesOn device t.entries

-- ================================================================ paths

section Paths

variable {separator : Char} {path path' name name' : String}

theorem childPath_toList :
    (childPath separator path name).toList
      = path.toList ++ separator :: name.toList := by
  simp [childPath, String.toList_append, Char.toString]

/-- The last part of a path is the name that it ends in. -/
theorem splitOn_childPath (hname : separator ∉ name.toList) :
    (childPath separator path name).splitOn (.singleton separator)
      = path.splitOn (.singleton separator) ++ [name] := by
  rw [← Text.splitOn_eq_self hname]
  exact Text.splitOn_between path name separator

/-- Names without separators can be read off a path: two paths that are equal
end in the same name and agree before it. -/
theorem childPath_inj (hname : separator ∉ name.toList)
    (hname' : separator ∉ name'.toList)
    (h : childPath separator path name = childPath separator path' name') :
    path = path' ∧ name = name' := by
  have hparts := congrArg (·.splitOn (.singleton separator)) h
  simp only [splitOn_childPath hname, splitOn_childPath hname'] at hparts
  obtain ⟨hpaths, hnames⟩ := List.append_inj' hparts rfl
  refine ⟨?_, List.singleton_inj.1 hnames⟩
  rw [← Text.intercalate_splitOn path separator, hpaths,
    Text.intercalate_splitOn]

/-- Different names do not lead to one place, however paths go on. -/
theorem name_eq_of_extends {rest rest' : List Char}
    (hname : separator ∉ name.toList) (hname' : separator ∉ name'.toList)
    (hrest : rest.head?.all (· == separator))
    (hrest' : rest'.head?.all (· == separator))
    (h : name.toList ++ rest = name'.toList ++ rest') : name = name' := by
  have hcut : ∀ {name : String} {rest : List Char},
      separator ∉ name.toList → rest.head?.all (· == separator) →
      (name.toList ++ rest).takeWhile (· != separator) = name.toList := by
    intro name rest hname hrest
    have hall : ∀ c ∈ name.toList, (c != separator) = true := fun c hc =>
      bne_iff_ne.2 fun heq => hname (heq ▸ hc)
    rw [List.takeWhile_append_of_pos hall]
    cases rest with
    | nil => simp
    | cons c rest =>
      obtain rfl : c = separator := by simpa using hrest
      simp
  apply String.toList_inj.1
  rw [← hcut hname hrest, h, hcut hname' hrest']

theorem childPath_ne_empty : childPath separator path name ≠ "" := by
  intro h
  have hlist := congrArg String.toList h
  rw [childPath_toList] at hlist
  exact List.append_ne_nil_of_right_ne_nil _ (List.cons_ne_nil _ _) hlist

theorem isPathKey_childPath (hpath : IsPathKey separator path)
    (hname : name ≠ "") : IsPathKey separator (childPath separator path name)
    := by
  obtain ⟨c, rest, hchars⟩ : ∃ c rest, name.toList = c :: rest :=
    List.exists_cons_of_ne_nil fun h =>
      hname (String.toList_eq_nil_iff.1 h)
  refine .inr ?_
  rw [childPath_toList, hchars]
  rcases hpath with rfl | ⟨d, more, hmore⟩
  · exact ⟨c, rest, rfl⟩
  · rw [hmore]
    exact ⟨d, more ++ separator :: c :: rest, rfl⟩

end Paths

-- =============================================================== reaching

variable {device : UInt64} {separator : Char}

theorem Reaches.inodeOn_eq {root : Tree σ} {start path : String}
    {t : Tree σ} {inode : Inode}
    (h : Reaches device separator root start path t inode) :
    t.inodeOn device = some inode := by
  cases h with
  | root h => exact h
  | entry _ _ _ h => exact h

/-- Nothing is reached from an object that has no inode on the device. -/
theorem Reaches.exists_inodeOn {root : Tree σ} {start path : String}
    {t : Tree σ} {inode : Inode}
    (h : Reaches device separator root start path t inode) :
    ∃ first, root.inodeOn device = some first := by
  induction h with
  | root h => exact ⟨_, h⟩
  | entry _ _ _ _ ih => exact ih

/-- What is reached from an entry is reached from its directory. -/
theorem Reaches.of_entry {root u : Tree σ} {start path : String} {t : Tree σ}
    {inode inode' : Inode} (hroot : root.inodeOn device = some inode)
    (opens : inode.kind = .directory) (mem : u ∈ root.entries)
    (h : Reaches device separator u (childPath separator start u.name) path
      t inode') :
    Reaches device separator root start path t inode' := by
  induction h with
  | root hu => exact .entry (.root hroot) opens mem hu
  | entry _ opens' mem' hu ih => exact .entry ih opens' mem' hu

/-- What is reached is the root, or it is reached from an entry of it. -/
theorem Reaches.cases_root {root : Tree σ} {start path : String} {t : Tree σ}
    {inode inode' : Inode} (hroot : root.inodeOn device = some inode)
    (h : Reaches device separator root start path t inode') :
    (path = start ∧ t = root ∧ inode' = inode) ∨
      inode.kind = .directory ∧ ∃ u ∈ root.entries,
        Reaches device separator u (childPath separator start u.name) path
          t inode' := by
  induction h with
  | root h =>
    exact .inl ⟨rfl, rfl, Option.some_inj.1 (h.symm.trans hroot)⟩
  | @entry path t u inode₁ inode₂ _ opens mem hu ih =>
    obtain ⟨rfl, rfl, rfl⟩ | ⟨hopens, a, ha, hbelow⟩ := ih
    · exact .inr ⟨opens, u, mem, .root hu⟩
    · exact .inr ⟨hopens, a, ha, .entry hbelow opens mem hu⟩

/-- Paths go on where they began. -/
theorem Reaches.extends {root : Tree σ} {start path : String} {t : Tree σ}
    {inode : Inode} (h : Reaches device separator root start path t inode) :
    ∃ rest, path.toList = start.toList ++ rest ∧
      rest.head?.all (· == separator) := by
  induction h with
  | root h => exact ⟨[], by simp, rfl⟩
  | @entry path t u inode inode' above opens mem hu ih =>
    obtain ⟨rest, hpath, hrest⟩ := ih
    refine ⟨rest ++ separator :: u.name.toList, ?_, ?_⟩
    · rw [childPath_toList, hpath, List.append_assoc]
    · cases rest with
      | nil => simp
      | cons c rest => simpa using hrest

namespace Regular

variable {root : Tree σ} (hroot : Regular device separator root)

include hroot

/-- What is reached is reached under a path that can name an inode. -/
theorem isPathKey {path : String} {t : Tree σ} {inode : Inode}
    (h : Reaches device separator root "" path t inode) :
    IsPathKey separator path := by
  induction h with
  | root h => exact .inl rfl
  | entry above opens mem _ ih =>
    exact isPathKey_childPath ih
      ((hroot.legible above opens).named _ mem).1

/-- A path leads to one object. -/
theorem reaches_inj {path : String} {t t' : Tree σ} {inode inode' : Inode}
    (h : Reaches device separator root "" path t inode)
    (h' : Reaches device separator root "" path t' inode') :
    t' = t ∧ inode' = inode := by
  suffices htree : ∀ path', Reaches device separator root "" path' t' inode' →
      path' = path → t' = t by
    obtain rfl := htree path h' rfl
    exact ⟨rfl, Option.some_inj.1 (h'.inodeOn_eq.symm.trans h.inodeOn_eq)⟩
  clear h'
  induction h generalizing t' inode' with
  | root h =>
    rintro _ (h' | _) hpath
    · rfl
    · exact absurd hpath childPath_ne_empty
  | @entry path t u inode inode₁ above opens mem hu ih =>
    rintro _ (h' | ⟨above', opens', mem', hu'⟩) hpath
    · exact absurd hpath.symm childPath_ne_empty
    · have hlegible := hroot.legible above opens
      have hlegible' := hroot.legible above' opens'
      obtain ⟨hdirectory, hname⟩ := childPath_inj
        (hlegible'.named _ mem').2 (hlegible.named _ mem).2 hpath
      obtain rfl := ih _ above' hdirectory
      exact List.inj_on_of_nodup_map hlegible.apart mem' mem hname

end Regular

-- =============================================================== waiting

/-- What has names can be changed before it is sorted or after. -/
theorem sortedByName_map {α γ : Type} (f : α → γ)
    (named : List (String × α)) :
    (sortedByName named).map (fun e => (e.1, f e.2))
      = sortedByName (named.map fun e => (e.1, f e.2)) :=
  List.map_mergeSort fun _ _ _ _ => rfl

theorem mem_sortedByName {α : Type} {e : String × α}
    {named : List (String × α)} : e ∈ sortedByName named ↔ e ∈ named :=
  List.mem_mergeSort

/-- What is under the names, whatever their order. -/
theorem flatMap_sortedByName_perm {α : Type}
    (named : List (String × List α)) :
    ((sortedByName named).flatMap (·.2)).Perm (named.flatMap (·.2)) :=
  (List.mergeSort_perm named _).flatMap_right _

namespace Tree

/-- What a walk goes to under some name. -/
theorem mem_namesOn {entries : List (Tree σ)} {e : String × Int64} :
    e ∈ namesOn device entries ↔
      ∃ u ∈ entries, ∃ inode, u.inodeOn device = some inode ∧
        u.name = e.1 ∧ inode.ino = e.2 := by
  simp only [namesOn, List.mem_filterMap, Option.map_eq_some_iff]
  refine exists_congr fun u => and_congr_right fun _ =>
    exists_congr fun inode => and_congr_right fun _ => ?_
  exact Prod.ext_iff

/-- What waits is what a walk goes to. -/
theorem inodeOn_eq_map_pending? (device : UInt64) (path : String)
    (t : Tree σ) :
    t.inodeOn device = (t.pending? device path).map (·.inode) := by
  cases t with
  | lost name => rfl
  | object name facts entries =>
    rw [pending?, Option.map_map]
    exact Option.map_id'.symm

theorem visitAt_path (path : String) (inode : Inode) (t : Tree σ) :
    (t.visitAt device separator path inode).path = path := by
  cases t <;> rfl

theorem visitAt_inode (path : String) (inode : Inode) (t : Tree σ) :
    (t.visitAt device separator path inode).inode = inode := by
  cases t <;> rfl

end Tree

/-- What is found under the names in a directory. -/
theorem Pending.map_found (separator : Char) (p : Pending σ) :
    (p.found device separator).map (fun c => (c.1, c.2.inode.ino))
      = Tree.namesOn device p.entries := by
  rw [found, Tree.namesOn, List.map_filterMap]
  congr 1
  funext t
  rw [t.inodeOn_eq_map_pending? device (childPath separator p.path t.name),
    Option.map_map, Option.map_map]
  rfl

/-- A directory that can be read is visited with the names in it, in their
order. -/
theorem Pending.names_visit {p : Pending σ}
    (hlisted : (p.isDirectory && p.facts.listable) = true) :
    (p.visit device separator).names
      = sortedByName (Tree.namesOn device p.entries) := by
  rw [← p.map_found separator,
    ← sortedByName_map fun child : Pending σ => child.inode.ino]
  simp only [visit, children, if_pos hlisted]

/-- A directory that can be read is visited with all its names, and nothing
fails there. -/
theorem Tree.visitAt_legible {path : String} {inode : Inode} {t : Tree σ}
    (hon : t.inodeOn device = some inode)
    (hlegible : inode.kind = .directory → t.Legible separator) :
    (inode.kind = .directory →
      (t.visitAt device separator path inode).names
        = sortedByName (namesOn device t.entries)) ∧
    (t.visitAt device separator path inode).failures = 0 := by
  cases t with
  | lost name => cases hon
  | object name facts entries =>
    show (_ →
      (Pending.visit device separator ⟨path, inode, facts, entries⟩).names
      = _) ∧ Pending.failures ⟨path, inode, facts, entries⟩ = 0
    by_cases hkind : inode.kind = .directory
    · have hlisted : facts.listable = true := (hlegible hkind).listable
      refine ⟨fun _ => Pending.names_visit ?_, ?_⟩
      · simp [Pending.isDirectory, hkind, hlisted]
      · have hfound : ∀ u ∈ entries, u.isLost = false :=
          (hlegible hkind).found
        simpa [Pending.failures, Pending.isDirectory, hkind, hlisted]
          using hfound
    · refine ⟨fun h => absurd h hkind, ?_⟩
      simp [Pending.failures, Pending.isDirectory, hkind]

-- ================================================================ visits

namespace Tree

mutual

/-- The visits to an entry under some path and to everything below it. -/
def visits (device : UInt64) (separator : Char) (path : String) :
    Tree σ → List (Visit σ)
  | lost _ => []
  | object name facts entries =>
    match (object name facts entries).pending? device path with
    | none => []
    | some p =>
      let below :=
        if p.isDirectory && p.facts.listable then
          (sortedByName (visitsBelow device separator path entries)).flatMap
            (·.2)
        else []
      p.visit device separator :: below

/-- The visits to each entry of a directory that a walk goes to, by its
name. -/
def visitsBelow (device : UInt64) (separator : Char) (path : String) :
    List (Tree σ) → List (String × List (Visit σ))
  | [] => []
  | t :: rest =>
    let here := visits device separator (childPath separator path t.name) t
    let others := visitsBelow device separator path rest
    if (t.inodeOn device).isSome then (t.name, here) :: others else others

end

/-- What is on another device, or has no inode, is not visited, nor is anything
below it. -/
theorem visits_eq_nil {path : String} {t : Tree σ}
    (hon : t.inodeOn device = none) :
    t.visits device separator path = [] := by
  cases t with
  | lost name => rfl
  | object name facts entries => rw [visits, pending?, hon, Option.map_none]

/-- The visits to an object come before those below it. Below a directory that
can be read, the entries come in the order of their names; below anything else
there are none. -/
theorem visits_object {path name : String} {facts : Facts σ}
    {entries : List (Tree σ)} {inode : Inode}
    (hon : (object name facts entries).inodeOn device = some inode) :
    (object name facts entries).visits device separator path
      = (object name facts entries).visitAt device separator path inode ::
        if inode.kind = .directory ∧ facts.listable then
          (sortedByName (visitsBelow device separator path entries)).flatMap
            (·.2)
        else [] := by
  rw [visits, pending?, hon, Option.map_some]
  simp [visitAt, Pending.isDirectory]

/-- An entry that a walk does not go to has no visits below it either. -/
theorem flatMap_visitsBelow_cons (t : Tree σ) (rest : List (Tree σ))
    (path : String) :
    (visitsBelow device separator path (t :: rest)).flatMap (·.2)
      = t.visits device separator (childPath separator path t.name)
        ++ (visitsBelow device separator path rest).flatMap (·.2) := by
  rw [visitsBelow]
  cases hon : t.inodeOn device with
  | none => rw [visits_eq_nil hon]; rfl
  | some inode => rfl

section Visiting

/-- Can every directory that is reached from an object be read? -/
def AllLegible (device : UInt64) (separator : Char) (t : Tree σ)
    (start : String) : Prop :=
  ∀ {path u inode}, Reaches device separator t start path u inode →
    inode.kind = .directory → u.Legible separator

mutual

/-- A walk visits what it reaches. -/
theorem mem_visits (v : Visit σ) (t : Tree σ) (start : String)
    (hlegible : AllLegible device separator t start) :
    v ∈ t.visits device separator start ↔
      ∃ path u inode, Reaches device separator t start path u inode ∧
        v = u.visitAt device separator path inode := by
  -- by recursion on the tree, together with the entries of a directory
  match t with
  | lost name =>
    refine iff_of_false List.not_mem_nil ?_
    rintro ⟨path, u, inode, hreach, -⟩
    obtain ⟨first, hfirst⟩ := hreach.exists_inodeOn
    cases hfirst
  | object name facts entries =>
    cases hon : (object name facts entries).inodeOn device with
    | none =>
      rw [visits_eq_nil hon]
      refine iff_of_false List.not_mem_nil ?_
      rintro ⟨path, u, inode, hreach, -⟩
      obtain ⟨first, hfirst⟩ := hreach.exists_inodeOn
      cases hon.symm.trans hfirst
    | some inode =>
      rw [visits_object hon, List.mem_cons]
      constructor
      · rintro (rfl | hbelow)
        · exact ⟨start, _, inode, .root hon, rfl⟩
        · split at hbelow
          · next hlisted =>
            obtain ⟨u, hu, path, t, inode', hreach, rfl⟩ :=
              (mem_visitsBelow v entries start fun u hu path t inode' h =>
                hlegible (h.of_entry hon hlisted.1 hu)).1
                ((flatMap_sortedByName_perm _).mem_iff.1 hbelow)
            exact ⟨path, t, inode', hreach.of_entry hon hlisted.1 hu, rfl⟩
          · cases hbelow
      · rintro ⟨path, u, inode', hreach, rfl⟩
        -- what is reached is the root itself or lies below one of its entries
        obtain ⟨rfl, rfl, rfl⟩ | ⟨hkind, a, ha, hbelow⟩ :=
          hreach.cases_root hon
        · exact .inl rfl
        · have hlisted : facts.listable = true :=
            (hlegible (.root hon) hkind).listable
          rw [if_pos ⟨hkind, hlisted⟩]
          refine .inr ((flatMap_sortedByName_perm _).mem_iff.2 ?_)
          exact (mem_visitsBelow _ entries start fun u hu path t inode' h =>
            hlegible (h.of_entry hon hkind hu)).2
            ⟨a, ha, path, u, inode', hbelow, rfl⟩

/-- The other half of the recursion: what is visited below a directory is what
is reached from one of its entries. -/
theorem mem_visitsBelow (v : Visit σ) (entries : List (Tree σ))
    (start : String)
    (hlegible : ∀ t ∈ entries, AllLegible device separator t
      (childPath separator start t.name)) :
    v ∈ (visitsBelow device separator start entries).flatMap (·.2) ↔
      ∃ t ∈ entries, ∃ path u inode,
        Reaches device separator t (childPath separator start t.name) path u
          inode ∧ v = u.visitAt device separator path inode := by
  match entries with
  | [] => simp [visitsBelow]
  | t :: rest =>
    have hhere := mem_visits v t (childPath separator start t.name)
      (hlegible t List.mem_cons_self)
    have hrest := mem_visitsBelow v rest start fun u hu =>
      hlegible u (List.mem_cons_of_mem _ hu)
    rw [flatMap_visitsBelow_cons, List.mem_append, hhere, hrest,
      List.exists_mem_cons_iff]

end

mutual

/-- No two visits have one path. -/
theorem visits_nodup (t : Tree σ) (start : String)
    (hlegible : AllLegible device separator t start) :
    ((t.visits device separator start).map (·.path)).Nodup := by
  match t with
  | lost name => exact List.nodup_nil
  | object name facts entries =>
    cases hon : (object name facts entries).inodeOn device with
    | none =>
      rw [visits_eq_nil hon]
      exact List.nodup_nil
    | some inode =>
      rw [visits_object hon]
      split
      · next hlisted =>
        have hdirectory := hlegible (.root hon) hlisted.1
        have hbelow : ∀ u ∈ entries, AllLegible device separator u
            (childPath separator start u.name) := fun u hu path t inode' h =>
          hlegible (h.of_entry hon hlisted.1 hu)
        have hperm := flatMap_sortedByName_perm
          (visitsBelow device separator start entries)
        refine List.nodup_cons.2 ⟨fun hstart => ?_, ?_⟩
        · -- a path below is longer than the one of the directory
          obtain ⟨v, hv, hpath⟩ := List.mem_map.1 hstart
          obtain ⟨u, hu, path, t, inode', hreach, rfl⟩ :=
            (mem_visitsBelow v entries start hbelow).1 (hperm.mem_iff.1 hv)
          obtain ⟨more, hmore, -⟩ := hreach.extends
          obtain rfl : path = start := (visitAt_path ..).symm.trans hpath
          have hlength := congrArg List.length hmore
          rw [childPath_toList] at hlength
          simp only [List.length_append, List.length_cons] at hlength
          omega
        · refine (hperm.map _).nodup_iff.2 ?_
          exact visitsBelow_nodup entries start hbelow
            (fun u hu => (hdirectory.named u hu).2) hdirectory.apart
      · exact List.nodup_singleton _

/-- No path is visited twice below a directory whose entries have different
names: paths below two entries differ in the name of the entry. -/
theorem visitsBelow_nodup (entries : List (Tree σ)) (start : String)
    (hlegible : ∀ t ∈ entries, AllLegible device separator t
      (childPath separator start t.name))
    (hnamed : ∀ t ∈ entries, separator ∉ t.name.toList)
    (hapart : (entries.map name).Nodup) :
    (((visitsBelow device separator start entries).flatMap (·.2)).map
      (·.path)).Nodup := by
  match entries with
  | [] => exact List.nodup_nil
  | t :: rest =>
    obtain ⟨hfirst, hrest⟩ := List.nodup_cons.1 hapart
    have hothers : ∀ u ∈ rest, u ∈ t :: rest := fun u hu =>
      List.mem_cons_of_mem _ hu
    rw [flatMap_visitsBelow_cons, List.map_append]
    refine List.nodup_append.2 ⟨visits_nodup t _
      (hlegible t List.mem_cons_self), visitsBelow_nodup rest start
      (fun u hu => hlegible u (hothers u hu))
      (fun u hu => hnamed u (hothers u hu)) hrest, ?_⟩
    -- a path under both would go on behind both names
    rintro path hpath _ hpath' rfl
    obtain ⟨v, hv, hvpath⟩ := List.mem_map.1 hpath
    obtain ⟨v', hv', hvpath'⟩ := List.mem_map.1 hpath'
    obtain ⟨p, a, inode, hreach, rfl⟩ :=
      (mem_visits v t _ (hlegible t List.mem_cons_self)).1 hv
    obtain ⟨u, hu, p', a', inode', hreach', rfl⟩ :=
      (mem_visitsBelow v' rest start fun u hu =>
        hlegible u (hothers u hu)).1 hv'
    rw [visitAt_path] at hvpath hvpath'
    subst hvpath hvpath'
    obtain ⟨more, hmore, hsep⟩ := hreach.extends
    obtain ⟨more', hmore', hsep'⟩ := hreach'.extends
    have hsame := hmore.symm.trans hmore'
    simp only [childPath_toList, List.append_assoc, List.cons_append,
      List.append_cancel_left_eq, List.cons.injEq, true_and] at hsame
    have hname := name_eq_of_extends (hnamed t List.mem_cons_self)
      (hnamed u (hothers u hu)) hsep hsep' hsame
    exact hfirst (hname ▸ List.mem_map_of_mem hu)

end

end Visiting

end Tree

end DiskAtlas.Scan
