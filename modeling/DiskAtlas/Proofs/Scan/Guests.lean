/-
Who gets a place below the directory of the hidden owners. A pass over a
device asks for places again and again, for an owner or for a file without
a name, and always for the directories above it first; whoever is asked for
the first time is put in, and nothing happens for those that are there. So
the rows, paths and names that a pass puts in are those of the guests it
was asked for, each once and in the order in which they were asked for
first, with numbers that no row had before (`Hosts`).

The numbers are those at the end of the pass. A special owner keeps the
number it is given when it is met, because those met later are numbered
behind it.
-/
import Mathlib.Data.List.Induction
import DiskAtlas.Proofs.Scan.Filling
import DiskAtlas.Proofs.Scan.OwnerNames
import DiskAtlas.Proofs.SortedMap

namespace DiskAtlas.Scan

open Mapping

variable {β : Type}

-- ====================================================== first appearances

section Firsts

variable {α : Type} [DecidableEq α]

/-- What is there changes nothing of the first appearances, and what is new
comes behind them. -/
theorem eraseDups_snoc (as : List α) (a : α) :
    (as ++ [a]).eraseDups
      = if a ∈ as then as.eraseDups else as.eraseDups ++ [a] := by
  rw [List.eraseDups_append]
  by_cases h : a ∈ as
  · simp [List.removeAll, h]
  · simp [List.removeAll, h, List.eraseDups_cons]

/-- Each guest is put in once, however often it is asked for. -/
theorem nodup_eraseDups (as : List α) : as.eraseDups.Nodup := by
  induction as using List.reverseRecOn with
  | nil => exact List.nodup_nil
  | append_singleton as a ih =>
    rw [eraseDups_snoc]
    split
    · exact ih
    · next h =>
      refine List.nodup_append.2 ⟨ih, List.nodup_singleton a, ?_⟩
      rintro b hb c hc rfl
      rw [List.mem_singleton.1 hc, List.mem_eraseDups] at hb
      exact h hb

/-- Asking for more leaves those that were put in, in their order, and puts new
ones behind them. -/
theorem prefix_eraseDups (as bs : List α) :
    as.eraseDups <+: (as ++ bs).eraseDups := by
  rw [List.eraseDups_append]
  exact List.prefix_append _ _

/-- Renaming apart keeps the order of first appearances. -/
theorem eraseDups_filterMap {γ : Type} [DecidableEq γ] {f : α → Option γ}
    {as : List α} (hf : ∀ a ∈ as, ∀ b ∈ as, ∀ c, f a = some c →
      f b = some c → a = b) :
    (as.filterMap f).eraseDups = as.eraseDups.filterMap f := by
  induction as using List.reverseRecOn with
  | nil => rfl
  | append_singleton as a ih =>
    have hbefore := ih fun b hb b' hb' => hf b (List.mem_append_left _ hb) b'
      (List.mem_append_left _ hb')
    rw [List.filterMap_append, eraseDups_snoc]
    cases hfa : f a with
    | none =>
      rw [List.filterMap_cons_none hfa, List.filterMap_nil, List.append_nil,
        hbefore]
      split
      · rfl
      · simp [hfa]
    | some c =>
      -- `f` tells those apart that it keeps
      have hmem : c ∈ as.filterMap f ↔ a ∈ as := by
        rw [List.mem_filterMap]
        constructor
        · rintro ⟨b, hb, hfb⟩
          have heq := hf b (List.mem_append_left _ hb) a
            (List.mem_append_right _ List.mem_cons_self) c hfb hfa
          exact heq ▸ hb
        · exact fun ha => ⟨a, ha, hfa⟩
      rw [List.filterMap_cons_some hfa, List.filterMap_nil, eraseDups_snoc,
        hbefore]
      by_cases hold : a ∈ as
      · rw [if_pos hold, if_pos (hmem.2 hold)]
      · rw [if_neg hold, if_neg fun hnew => hold (hmem.1 hnew)]
        simp [hfa]

end Firsts

/-- A special owner has the number of its place among those met, and is met
once. -/
theorem HiddenNumbers.number_special (n : HiddenNumbers) (o : SpecialOwner) :
    n.number (.special o) = (numberAt (n.met.idxOf o),
      ⟨if o ∈ n.met then n.met else n.met ++ [o]⟩) := by
  rw [number, List.idxOf_eq_getD_idxOf?]
  cases hindex : n.met.idxOf? o with
  | none =>
    rw [if_neg (List.idxOf?_eq_none_iff.1 hindex)]
    rfl
  | some i =>
    have hmem : o ∈ n.met := by
      by_contra hnot
      rw [List.idxOf?_eq_none_iff.2 hnot] at hindex
      cases hindex
    rw [if_pos hmem]
    rfl

-- ================================================================ guests

/-- Someone who is given a place by a pass. -/
inductive Guest where
  | owner (o : HiddenOwner)
  | file (ino : Int64)
  deriving Repr, DecidableEq

namespace Guest

def kind : Guest → InodeKind
  | owner o => o.kind
  | file _ => .file

def path (separator : Char) : Guest → String
  | owner o => o.path separator
  | file ino => HiddenOwner.unlinkedPath separator ino

/-- The number of a guest when these special owners have been met. -/
def number (met : List SpecialOwner) : Guest → Int64
  | owner o => (HiddenNumbers.number ⟨met⟩ o).1
  | file ino => ino

/-- The guests that a guest is put in below. -/
def above : Guest → List Guest
  | owner .root => []
  | owner _ => [owner .root]
  | file _ => [owner .root, owner .unlinked]

/-- The entry of a guest in a directory. The directory of all others is in
the top directory, if there is one. -/
def entry (top : Option Int64) (met : List SpecialOwner) :
    Guest → Option (Int64 × String × Int64)
  | owner .root => top.map fun d => (d, HiddenOwner.root.name, -1)
  | owner o => some (-1, o.name, number met (owner o))
  | file ino => some (-4, toString ino.toInt, ino)

theorem above_owner {o : HiddenOwner} (h : o ≠ .root) :
    (owner o).above = [owner .root] := by
  cases o with
  | root => exact absurd rfl h
  | _ => rfl

/-- Every owner has its entry in the directory of the hidden owners, which has
its own elsewhere. -/
theorem entry_owner {o : HiddenOwner} (h : o ≠ .root) (top : Option Int64)
    (met : List SpecialOwner) :
    (owner o).entry top met = some (-1, o.name, (owner o).number met) := by
  cases o with
  | root => exact absurd rfl h
  | _ => rfl

/-- Guests that a pass over the device may ask for: owners as records name
them, and files that have no row and a number that a row can have. -/
def Admissible (x : Session β) (met : List SpecialOwner) : Guest → Prop
  | owner o => o.IsProper ∧ ∀ s, o = .special s → s ∈ met
  | file ino => 0 ≤ ino.toInt ∧ x.containsInode ino = false

-- =============================================================== numbers

/-- There is a negative number for each special owner, as there is while a
table of them fits into memory. -/
def Numbered (met : List SpecialOwner) : Prop :=
  met.length + 4 ≤ 0x8000000000000000

theorem number_special (met : List SpecialOwner) (o : SpecialOwner) :
    number met (owner (.special o))
      = HiddenNumbers.numberAt (met.idxOf o) := by
  rw [number, HiddenNumbers.number_special]

/-- Numbers count down from -5, the first that is not fixed. -/
theorem toInt_numberAt {i : Nat} (h : i + 5 ≤ 0x8000000000000000) :
    (HiddenNumbers.numberAt i).toInt = -5 - i := by
  rw [HiddenNumbers.numberAt, Int64.toInt_ofInt_of_le] <;> omega

variable {x : Session β} {met : List SpecialOwner}

/-- The number of an owner, as an integer. -/
def ownerNumber (met : List SpecialOwner) : HiddenOwner → Int
  | .root => -1
  | .metadata => -2
  | .freeSpace => -3
  | .unlinked => -4
  | .special o => -5 - met.idxOf o

/-- Owners have negative numbers, by which they are told apart from files. -/
theorem ownerNumber_neg (met : List SpecialOwner) (o : HiddenOwner) :
    ownerNumber met o < 0 := by
  cases o <;> simp only [ownerNumber] <;> omega

/-- The number of an owner as an integer, without the word it is kept in. -/
theorem toInt_number_owner (hmet : Numbered met) {o : HiddenOwner}
    (ho : (owner o).Admissible x met) :
    (number met (owner o)).toInt = ownerNumber met o := by
  cases o with
  | special s =>
    have hlt := List.idxOf_lt_length_of_mem (ho.2 s rfl)
    unfold Numbered at hmet
    rw [number_special, toInt_numberAt (by omega), ownerNumber]
  | root | metadata | freeSpace | unlinked => rfl

/-- Owners that were met are known by their numbers. -/
theorem ownerNumber_injective {o o' : HiddenOwner}
    (ho : (owner o).Admissible x met)
    (h : ownerNumber met o = ownerNumber met o') : o = o' := by
  cases o <;> cases o' <;> simp only [ownerNumber] at h <;> try omega
  case special.special s s' =>
    have hindex : met.idxOf s = met.idxOf s' := by omega
    rw [(List.idxOf_inj (ho.2 s rfl)).1 hindex]
  all_goals rfl

/-- Different guests have different numbers. -/
theorem number_injective (hmet : Numbered met) {g g' : Guest}
    (hg : g.Admissible x met) (hg' : g'.Admissible x met)
    (h : g.number met = g'.number met) : g = g' := by
  have hint := congrArg Int64.toInt h
  cases g with
  | file ino =>
    cases g' with
    | file ino' => exact congrArg file h
    | owner o' =>
      have hneg := ownerNumber_neg met o'
      rw [← toInt_number_owner hmet hg', ← hint] at hneg
      exact absurd hneg (Int.not_lt.2 hg.1)
  | owner o =>
    rw [toInt_number_owner hmet hg] at hint
    cases g' with
    | file ino' =>
      have hneg := ownerNumber_neg met o
      rw [hint] at hneg
      exact absurd hneg (Int.not_lt.2 hg'.1)
    | owner o' =>
      rw [toInt_number_owner hmet hg'] at hint
      rw [ownerNumber_injective hg hint]

/-- No row has the number of a guest before a pass. -/
theorem number_fresh
    (hx : ∀ ino, x.containsInode ino = true → 0 ≤ ino.toInt)
    (hmet : Numbered met) {g : Guest} (hg : g.Admissible x met) :
    x.containsInode (g.number met) = false := by
  cases g with
  | file ino => exact hg.2
  | owner o =>
    have hneg := ownerNumber_neg met o
    rw [← toInt_number_owner hmet hg] at hneg
    refine Bool.eq_false_iff.2 fun hrow => ?_
    exact absurd hneg (Int.not_lt.2 (hx _ hrow))

end Guest

-- ================================================================= hosts

/-- A session and the names that are to be put into directories, when a
pass over `x` was asked for some guests. -/
structure Hosts (x : Session β) (met : List SpecialOwner)
    (asked : List Guest) (y : Session β)
    (names : List (Int64 × String × Int64)) : Prop where
  admissible : ∀ g ∈ asked, g.Admissible x met
  /-- Nobody is there without the directories above. -/
  below : ∀ g ∈ asked, ∀ g' ∈ g.above, g' ∈ asked
  summary_eq : y.summary = x.summary
  inodes_eq : y.store.tables.inodes = x.store.tables.inodes.insertMany
    (asked.eraseDups.map fun g => (g.number met, .bare (g.number met) g.kind))
  paths_eq : y.store.tables.paths = x.store.tables.paths.insertMany
    (asked.eraseDups.map fun g => (g.path x.separator, g.number met))
  directories_eq : y.store.tables.directories = x.store.tables.directories
  names_eq : names
    = asked.eraseDups.filterMap (Guest.entry (x.lookupPath "") met)

namespace Hosts

variable {x y y' : Session β} {met : List SpecialOwner}
  {asked : List Guest} {names : List (Int64 × String × Int64)} {g : Guest}

theorem start (x : Session β) (met : List SpecialOwner) :
    Hosts x met [] x [] :=
  ⟨nofun, nofun, rfl, rfl, rfl, rfl, rfl⟩

theorem separator_eq (h : Hosts x met asked y names) :
    y.separator = x.separator := by
  unfold Session.separator
  rw [h.summary_eq]

/-- Who is there is there once. -/
theorem again (h : Hosts x met asked y names) (hg : g ∈ asked) :
    Hosts x met (asked ++ [g]) y names := by
  have hsame : (asked ++ [g]).eraseDups = asked.eraseDups := by
    rw [eraseDups_snoc, if_pos hg]
  have hmem : ∀ g' ∈ asked ++ [g], g' ∈ asked := by
    intro g' hg'
    rcases List.mem_append.1 hg' with hold | hnew
    · exact hold
    · exact List.mem_singleton.1 hnew ▸ hg
  refine ⟨?_, ?_, h.summary_eq, ?_, ?_, h.directories_eq, ?_⟩
  · exact fun g' hg' => h.admissible g' (hmem g' hg')
  · exact fun g' hg' g'' hg'' =>
      List.mem_append_left _ (h.below g' (hmem g' hg') g'' hg'')
  · rw [hsame, h.inodes_eq]
  · rw [hsame, h.paths_eq]
  · rw [hsame, h.names_eq]

/-- Who is new is put in under a number, a path and a name. -/
theorem add (h : Hosts x met asked y names) (hg : g ∉ asked)
    (hadmissible : g.Admissible x met)
    (habove : ∀ g' ∈ g.above, g' ∈ asked) :
    Hosts x met (asked ++ [g])
      (y.putInode (.bare (g.number met) g.kind) (g.path x.separator))
      (names ++ (g.entry (x.lookupPath "") met).toList) := by
  have hmore : (asked ++ [g]).eraseDups = asked.eraseDups ++ [g] := by
    rw [eraseDups_snoc, if_neg hg]
  refine ⟨?_, ?_, h.summary_eq, ?_, ?_, h.directories_eq, ?_⟩
  · intro g' hg'
    rcases List.mem_append.1 hg' with hold | hnew
    · exact h.admissible g' hold
    · exact List.mem_singleton.1 hnew ▸ hadmissible
  · intro g' hg' g'' hg''
    rcases List.mem_append.1 hg' with hold | hnew
    · exact List.mem_append_left _ (h.below g' hold g'' hg'')
    · obtain rfl := List.mem_singleton.1 hnew
      exact List.mem_append_left _ (habove g'' hg'')
  · rw [hmore, List.map_append, SortedMap.insertMany_append, ← h.inodes_eq]
    rfl
  · rw [hmore, List.map_append, SortedMap.insertMany_append, ← h.paths_eq]
    rfl
  · rw [hmore, List.filterMap_append, ← h.names_eq]
    cases hentry : g.entry (x.lookupPath "") met with
    | none => simp [hentry]
    | some e => simp [hentry]

/-- A row of a session under way is one from before, or that of a guest. -/
theorem containsInode_iff (h : Hosts x met asked y names) {ino : Int64} :
    y.containsInode ino = true ↔
      (∃ g ∈ asked, g.number met = ino) ∨ x.containsInode ino = true := by
  rw [Session.containsInode, h.inodes_eq, SortedMap.contains_insertMany_iff]
  simp [List.mem_eraseDups, Session.containsInode]

variable (hx : ∀ ino, x.containsInode ino = true → 0 ≤ ino.toInt)
  (hmet : Guest.Numbered met)

include hx hmet

/-- Who may be asked for is there exactly if it was asked for. -/
theorem mem_iff (h : Hosts x met asked y names)
    (hg : g.Admissible x met) :
    y.containsInode (g.number met) = true ↔ g ∈ asked := by
  rw [h.containsInode_iff, Guest.number_fresh hx hmet hg]
  constructor
  · rintro (⟨g', hg', hnumber⟩ | hfalse)
    · have heq := Guest.number_injective hmet (h.admissible g' hg') hg hnumber
      exact heq ▸ hg'
    · cases hfalse
  · exact fun hmem => .inl ⟨g, hmem, rfl⟩

/-- Whether an inode had a row before the pass can be told at any time: it
has one, and not as a file without a name. -/
theorem hadRow_iff (h : Hosts x met asked y names) {ino : Int64}
    (hino : 0 ≤ ino.toInt) :
    x.containsInode ino = true ↔
      y.containsInode ino = true ∧ .file ino ∉ asked := by
  constructor
  · intro hrow
    refine ⟨h.containsInode_iff.2 (.inr hrow), fun hfile => ?_⟩
    have hnone : x.containsInode ino = false := (h.admissible _ hfile).2
    rw [hnone] at hrow
    cases hrow
  · rintro ⟨hrow, hfile⟩
    by_cases hbefore : x.containsInode ino = true
    · exact hbefore
    · have hnew : (Guest.file ino).Admissible x met :=
        ⟨hino, Bool.eq_false_iff.2 hbefore⟩
      exact absurd ((h.mem_iff hx hmet hnew).1 hrow) hfile

end Hosts

-- ============================================================= attaching

/-- What giving someone a place leaves alone. -/
structure DevicePass.Beside (p q : DevicePass β) : Prop where
  records_eq : q.records = p.records
  foreign_eq : q.foreign = p.foreign
  freeBytes_eq : q.freeBytes = p.freeBytes
  extentMapRecords_eq : q.extentMapRecords = p.extentMapRecords
  extents_eq :
    q.session.store.tables.extents = p.session.store.tables.extents
  discarded_eq : q.session.discarded = p.session.discarded

namespace DevicePass

theorem Beside.trans {p q r : DevicePass β} (h : p.Beside q)
    (h' : q.Beside r) : p.Beside r :=
  ⟨h'.records_eq.trans h.records_eq, h'.foreign_eq.trans h.foreign_eq,
    h'.freeBytes_eq.trans h.freeBytes_eq,
    h'.extentMapRecords_eq.trans h.extentMapRecords_eq,
    h'.extents_eq.trans h.extents_eq,
    h'.discarded_eq.trans h.discarded_eq⟩

theorem Beside.refl (p : DevicePass β) : p.Beside p :=
  ⟨rfl, rfl, rfl, rfl, rfl, rfl⟩

theorem Beside.put {p q : DevicePass β} (h : p.Beside q) (row : Inode)
    (path : String) (names : List (Int64 × String × Int64)) :
    p.Beside { q with session := q.session.putInode row path, names } :=
  { h with }

variable {x : Session β} {met : List SpecialOwner} {asked : List Guest}

/-- An owner without a row is put in. -/
theorem addOwner_eq {p : DevicePass β} {owner : HiddenOwner} {ino : Int64}
    (directory : Option Int64) (h : ¬ p.session.containsInode ino) :
    p.addOwner owner ino directory =
      { p with
        session := p.session.putInode (.bare ino owner.kind)
          (owner.path p.session.separator)
        names := p.names ++
          (directory.map fun d => (d, owner.name, ino)).toList } := by
  rw [addOwner, Session.ensureInode, if_neg h]

/-- The places that a pass has given are those that it was asked for. -/
def HasGuests (x : Session β) (met : List SpecialOwner)
    (asked : List Guest) (p : DevicePass β) : Prop :=
  Hosts x met asked p.session p.names

variable (hx : ∀ ino, x.containsInode ino = true → 0 ≤ ino.toInt)
  (hmet : Guest.Numbered met)

include hx hmet

/-- Asking for the directory of the hidden owners: it is put in the first time,
and found ever after. -/
theorem attachRoot_hasGuests {p : DevicePass β}
    (h : p.HasGuests x met asked) :
    p.attachRoot.1 = -1 ∧ p.Beside p.attachRoot.2 ∧
      p.attachRoot.2.numbers = p.numbers ∧
      p.attachRoot.2.unlinked = p.unlinked ∧
      p.attachRoot.2.HasGuests x met (asked ++ [.owner .root]) := by
  have hadmissible : (Guest.owner .root).Admissible x met :=
    ⟨trivial, nofun⟩
  have hthere := Hosts.mem_iff hx hmet h hadmissible
  rw [attachRoot_eq]
  split
  · next hrow => exact ⟨rfl, .refl p, rfl, rfl, h.again (hthere.1 hrow)⟩
  · next hrow =>
    have hnew : Guest.owner .root ∉ asked := fun hold => hrow (hthere.2 hold)
    -- nobody was asked for yet, so the top directory is as it was
    have hnobody : asked = [] := by
      refine List.eq_nil_iff_forall_not_mem.2 fun g hg => hnew ?_
      cases g with
      | file ino => exact h.below _ hg _ List.mem_cons_self
      | owner o =>
        by_cases hroot : o = .root
        · exact hroot ▸ hg
        · refine h.below _ hg _ ?_
          rw [Guest.above_owner hroot]
          exact List.mem_singleton_self _
    have htop : p.session.lookupPath "" = x.lookupPath "" := by
      unfold Session.lookupPath
      rw [h.paths_eq, hnobody]
      rfl
    have hadd := Hosts.add h hnew hadmissible nofun
    rw [addOwner_eq _ hrow, htop, h.separator_eq]
    exact ⟨rfl, ⟨rfl, rfl, rfl, rfl, rfl, rfl⟩, rfl, rfl, hadd⟩

/-- An owner is put in below the directory of all, under the number that it
keeps. -/
theorem attach_hasGuests {p : DevicePass β} {owner : HiddenOwner}
    (hroot : owner ≠ .root)
    (hadmissible : (Guest.owner owner).Admissible x met)
    (hnumber : (p.numbers.number owner).1
      = Guest.number met (.owner owner))
    (h : p.HasGuests x met asked) :
    (p.attach owner).1 = Guest.number met (.owner owner) ∧
      p.Beside (p.attach owner).2 ∧
      (p.attach owner).2.numbers = (p.numbers.number owner).2 ∧
      (p.attach owner).2.unlinked = p.unlinked ∧
      (p.attach owner).2.HasGuests x met
        (asked ++ [.owner .root] ++ [.owner owner]) := by
  have hthere := Hosts.mem_iff hx hmet h hadmissible
  have habove := Guest.above_owner hroot
  let ino := Guest.number met (.owner owner)
  let q : DevicePass β := { p with numbers := (p.numbers.number owner).2 }
  have hattach : p.attach owner =
      if q.session.containsInode ino then (ino, q)
      else (ino, q.attachRoot.2.addOwner owner ino (some q.attachRoot.1)) := by
    have heq := attach_eq p owner
    simp only [hnumber, if_neg hroot] at heq
    exact heq
  by_cases hrow : q.session.containsInode ino
  · have hold := hthere.1 hrow
    rw [hattach, if_pos hrow]
    refine ⟨rfl, ⟨rfl, rfl, rfl, rfl, rfl, rfl⟩, rfl, rfl, ?_⟩
    have hdirectory := h.below _ hold _ (habove ▸ List.mem_cons_self)
    exact Hosts.again (Hosts.again h hdirectory)
      (List.mem_append_left _ hold)
  · have hq : q.HasGuests x met asked := h
    obtain ⟨hdirectory, hbeside, hnumbers, hunlinked, hguests⟩ :=
      attachRoot_hasGuests hx hmet hq
    -- its directory may have been put in just now, and the owner is still new
    have hnew : Guest.owner owner ∉ asked ++ [.owner .root] := by
      intro hmem
      rcases List.mem_append.1 hmem with hold | hsame
      · exact hrow (hthere.2 hold)
      · exact hroot (Guest.owner.inj (List.mem_singleton.1 hsame))
    have hrow' : ¬ q.attachRoot.2.session.containsInode ino :=
      fun hrow' => hnew ((Hosts.mem_iff hx hmet hguests hadmissible).1 hrow')
    have hadd := Hosts.add hguests hnew hadmissible (by
      rw [habove]
      exact fun g' hg' => List.mem_append_right _ hg')
    rw [Guest.entry_owner hroot] at hadd
    rw [hattach, if_neg hrow, addOwner_eq _ hrow', hdirectory,
      Hosts.separator_eq hguests]
    have hbefore : p.Beside q := ⟨rfl, rfl, rfl, rfl, rfl, rfl⟩
    exact ⟨rfl, (hbefore.trans hbeside).put _ _ _, hnumbers, hunlinked, hadd⟩

/-- A file without a name is put in below its own directory. -/
theorem attachUnlinked_hasGuests {p : DevicePass β} {ino : Int64}
    (hadmissible : (Guest.file ino).Admissible x met)
    (hunlinked : ino ∈ p.unlinked ↔ .file ino ∈ asked)
    (h : p.HasGuests x met asked) :
    p.Beside (p.attachUnlinked ino) ∧
      (p.attachUnlinked ino).numbers = p.numbers ∧
      (p.attachUnlinked ino).unlinked =
        (if ino ∈ p.unlinked then p.unlinked else p.unlinked ++ [ino]) ∧
      (p.attachUnlinked ino).HasGuests x met
        (asked ++ [.owner .root] ++ [.owner .unlinked] ++ [.file ino]) := by
  by_cases hold : ino ∈ p.unlinked
  · -- the file is there, and so are the directories above it: all three are
    -- asked for once more
    rw [attachUnlinked_eq, if_pos (List.contains_iff_mem.2 hold), if_pos hold]
    have hfile := hunlinked.1 hold
    have hroot := h.below _ hfile _ List.mem_cons_self
    have hdirectory := h.below _ hfile _
      (List.mem_cons_of_mem _ List.mem_cons_self)
    refine ⟨.refl p, rfl, rfl, ?_⟩
    exact Hosts.again (Hosts.again (Hosts.again h hroot)
      (List.mem_append_left _ hdirectory))
      (List.mem_append_left _ (List.mem_append_left _ hfile))
  · rw [if_neg hold]
    let q : DevicePass β := { p with unlinked := p.unlinked ++ [ino] }
    have hq : q.HasGuests x met asked := h
    obtain ⟨hnumber, hbeside, hnumbers, hfiles, hguests⟩ :=
      attach_hasGuests hx hmet (by decide : HiddenOwner.unlinked ≠ .root)
        ⟨trivial, nofun⟩ rfl hq
    have hnew : Guest.file ino ∉
        asked ++ [.owner .root] ++ [.owner .unlinked] := by
      have hfile : Guest.file ino ∉ asked := fun hmem =>
        hold (hunlinked.2 hmem)
      simpa using hfile
    -- the directories that were put in first have other numbers
    have hrow : ¬ (q.attach .unlinked).2.session.containsInode ino :=
      fun hrow => hnew ((Hosts.mem_iff hx hmet hguests hadmissible).1 hrow)
    have hadd := Hosts.add hguests hnew hadmissible (by
      simp [Guest.above])
    have hfile : (q.attach .unlinked).2.session.ensureInode ino .file
          (HiddenOwner.unlinkedPath
            (q.attach .unlinked).2.session.separator ino)
        = (q.attach .unlinked).2.session.putInode (.bare ino .file)
          (HiddenOwner.unlinkedPath x.separator ino) := by
      rw [Session.ensureInode, if_neg hrow, Hosts.separator_eq hguests]
    have hbefore : p.Beside q := ⟨rfl, rfl, rfl, rfl, rfl, rfl⟩
    have hresult : p.attachUnlinked ino =
        { (q.attach .unlinked).2 with
          session := (q.attach .unlinked).2.session.ensureInode ino .file
            (HiddenOwner.unlinkedPath
              (q.attach .unlinked).2.session.separator ino)
          names := (q.attach .unlinked).2.names ++
            [((q.attach .unlinked).1, toString ino.toInt, ino)] } := by
      rw [attachUnlinked_eq,
        if_neg (fun hmem => hold (List.contains_iff_mem.1 hmem))]
    rw [hfile, hnumber] at hresult
    rw [hresult]
    exact ⟨(hbefore.trans hbeside).put _ _ _, hnumbers, hfiles, hadd⟩

end DevicePass

end DiskAtlas.Scan
