/-
The order of terms. What a filter asks for is gathered from its terms item
by item (`asked`), paths apart, which are not split, and the filter that is
read from a text is the one of what its terms ask for (`read_eq_ofTerms`).
To put the terms in another order, or to give the items of a list terms of
their own, only puts what is asked in another order (`Regrouped.sameAsks`),
and no dimension heeds that: the filters agree on everything
(`read_regrouped`).
-/
import DiskAtlas.Proofs.Filter.Terms

namespace DiskAtlas

open Text FilterValue

-- ================================================================= terms

/-- The key and the value of a term, wherever it stands. -/
def FilterTerm.content (term : FilterTerm) : String × String :=
  (term.key, term.value)

/-- Terms that differ in their order or in how they are grouped: a list of
values, none of them empty, may stand for as many terms of its key, except
that paths are never split. -/
inductive Regrouped : List (String × String) → List (String × String) → Prop
  | permuted {terms terms' : List (String × String)} :
      terms.Perm terms' → Regrouped terms terms'
  | split (before after : List (String × String)) {key : String}
      {values : List (List Char)} : key ≠ "path" → values ≠ [] →
      (∀ value ∈ values, ',' ∉ value ∧ trim value ≠ []) →
      Regrouped
        (before ++ (key, String.ofList ([','].intercalate values)) :: after)
        (before ++ values.map (fun value => (key, String.ofList (trim value)))
          ++ after)
  | symm {terms terms' : List (String × String)} :
      Regrouped terms terms' → Regrouped terms' terms
  | trans {terms terms' terms'' : List (String × String)} :
      Regrouped terms terms' → Regrouped terms' terms'' →
        Regrouped terms terms''

-- ============================================================= agreement

/-- Filters that can be told apart by no extent, path, row or statistics. -/
structure InodeFilter.Agrees (f g : InodeFilter) : Prop where
  extent : ∀ e, f.extent.accepts e = g.extent.accepts e
  restricts : f.extent.restrictsExtents = g.extent.restrictsExtents
  path : ∀ path, f.extent.paths.accepts path = g.extent.paths.accepts path
  active : f.extent.paths.isActive = g.extent.paths.isActive
  row : ∀ inode, f.acceptsRow inode = g.acceptsRow inode
  stats : ∀ stats, f.acceptsStats stats = g.acceptsStats stats

-- ================================================================ asking

/-- The items that terms ask for, each with its dimension. -/
def asked (terms : List (String × String)) : List (FilterField × List Char) :=
  terms.flatMap fun term =>
    match FilterField.ofKey? term.1 with
    | none => []
    | some field => (items term.2).map (field, ·)

/-- The values of the terms that ask for paths. -/
def askedPaths (terms : List (String × String)) : List String :=
  (terms.filter fun term => FilterField.ofKey? term.1 == some .path).map (·.2)

/-- Does a term ask for kinds? It may name none. -/
def asksKinds (terms : List (String × String)) : Bool :=
  terms.any fun term => FilterField.ofKey? term.1 == some .kind

/-- The values of a dimension that can be read. -/
def valuesOf {α : Type} (field : FilterField)
    (read : List Char → Except FilterError α)
    (asks : List (FilterField × List Char)) : List α :=
  asks.filterMap fun ask =>
    if ask.1 = field then (read ask.2).toOption else none

/-- The conditions on flags, whatever their mode. -/
def flagsOf (asks : List (FilterField × List Char)) : List FlagMatch :=
  asks.filterMap fun ask =>
    match ask.1 with
    | .flags mode => (readMask ask.2).toOption.map (⟨mode, ·⟩)
    | _ => none

/-- The kinds of some sets. -/
def unionKinds (sets : List KindSet) : KindSet := sets.foldl .union .empty

/-- The paths that are asked for. -/
def pathsOf (separator : Char) (values : List String) : PathFilter :=
  if values.any (PathFilter.asksForAll · separator) then .everything
  else .patterns (values.filterMap fun value =>
    (PathPattern.parse value).toOption)

/-- The filter of what terms ask for. -/
def InodeFilter.ofTerms (zone : Calendar.Zone) (s : Summary)
    (terms : List (String × String)) : InodeFilter where
  extent := {
    physical := valuesOf .physical (readOffsetSpan s) (asked terms)
    logical := valuesOf .logical (readOffsetSpan s) (asked terms)
    inodes := valuesOf .inode readInodeSpan (asked terms)
    lengths := valuesOf .length (readOffsetSpan s) (asked terms)
    paths := pathsOf s.separator (askedPaths terms)
    kinds :=
      if asksKinds terms then
        some (unionKinds (valuesOf .kind readKinds (asked terms)))
      else none
    flags := flagsOf (asked terms) }
  travel := valuesOf .travel readScoreSpan (asked terms)
  extentCounts := valuesOf .extents readCountSpan (asked terms)
  sizes := valuesOf .size (readOffsetSpan s) (asked terms)
  atimes := valuesOf .atime (readTimeSpan zone) (asked terms)
  crtimes := valuesOf .crtime (readTimeSpan zone) (asked terms)
  ctimes := valuesOf .ctime (readTimeSpan zone) (asked terms)
  mtimes := valuesOf .mtime (readTimeSpan zone) (asked terms)

-- =============================================================== reading

/-- A loop that reads every item or fails, having not failed, has gathered what
each item reads as. This turns the order of reading into the order of a list,
which is what is permuted below. -/
theorem filterMap_of_mapM {α β ε : Type} {read : α → Except ε β}
    {xs : List α} {ys : List β} (h : xs.mapM read = .ok ys) :
    xs.filterMap (fun x => (read x).toOption) = ys := by
  induction xs generalizing ys with
  | nil =>
    cases h
    rfl
  | cons x xs ih =>
    rw [List.mapM_cons] at h
    cases hx : read x with
    | error e => rw [hx] at h; cases h
    | ok y =>
      rw [hx] at h
      cases hxs : xs.mapM read with
      | error e => rw [hxs] at h; cases h
      | ok rest =>
        rw [hxs] at h
        cases h
        rw [List.filterMap_cons, hx, ih hxs]
        rfl

section Added

variable (terms : List (String × String)) {key : String} (value : String)
  {field : FilterField}

theorem asked_append (hkey : FilterField.ofKey? key = some field) :
    asked (terms ++ [(key, value)])
      = asked terms ++ (items value).map (field, ·) := by
  simp [asked, hkey]

/-- The path patterns gain the value of a path term as it stands: a path is no
list, since a comma is a letter of a name. -/
theorem askedPaths_append (hkey : FilterField.ofKey? key = some field) :
    askedPaths (terms ++ [(key, value)])
      = askedPaths terms ++ if field = .path then [value] else [] := by
  by_cases hpath : field = .path
  · simp [askedPaths, hkey, hpath]
  · simp [askedPaths, hkey, hpath]

theorem asksKinds_append (hkey : FilterField.ofKey? key = some field) :
    asksKinds (terms ++ [(key, value)])
      = (asksKinds terms || decide (field = .kind)) := by
  by_cases hkind : field = .kind
  · simp [asksKinds, hkey, hkind]
  · simp [asksKinds, hkey, hkind]

variable {terms}

/-- Where no term asks for kinds, none are gathered. -/
theorem valuesOf_kind_eq_nil {α : Type}
    {read : List Char → Except FilterError α}
    (h : asksKinds terms = false) : valuesOf .kind read (asked terms) = [] := by
  rw [valuesOf, List.filterMap_eq_nil_iff]
  intro ask hask
  obtain ⟨term, hterm, hask⟩ := List.mem_flatMap.1 hask
  have hother := List.any_eq_false.1 h term hterm
  cases hfield : FilterField.ofKey? term.1 with
  | none => simp [hfield] at hask
  | some field =>
    rw [hfield] at hask hother
    obtain ⟨item, -, rfl⟩ := List.mem_map.1 hask
    have hne : field ≠ .kind := by simpa using hother
    simp [hne]

end Added

section Gathered

variable {α : Type} {read : List Char → Except FilterError α}
  (asks : List (FilterField × List Char)) (xs : List (List Char))
  (field other : FilterField)

/-- What is gathered for one field grows by what the items of its own terms
read as, and by nothing from the terms of another field. -/
theorem valuesOf_append :
    valuesOf other read (asks ++ xs.map (field, ·))
      = valuesOf other read asks
        ++ if field = other then xs.filterMap fun x => (read x).toOption
          else [] := by
  rw [valuesOf, List.filterMap_append, List.filterMap_map, ← valuesOf]
  congr 1
  split
  · next h =>
    exact congrArg (List.filterMap · xs) (funext fun _ => if_pos h)
  · next h => exact List.filterMap_eq_nil_iff.2 fun _ _ => if_neg h

/-- The masks grow by those of a flags term, each with the mode of its key. -/
theorem flagsOf_append : flagsOf (asks ++ xs.map (field, ·))
    = flagsOf asks ++ match field with
      | .flags mode => (xs.filterMap fun x => (readMask x).toOption).map
          (⟨mode, ·⟩)
      | _ => [] := by
  rw [flagsOf, List.filterMap_append, List.filterMap_map, ← flagsOf]
  congr 1
  cases field with
  | flags mode => exact List.map_filterMap.symm
  | physical | logical | length | inode | path | kind | size | travel
  | extents | atime | crtime | ctime | mtime =>
    exact List.filterMap_eq_nil_iff.2 fun _ _ => rfl

end Gathered

namespace KindSet

theorem union_assoc (r s t : KindSet) :
    (r.union s).union t = r.union (s.union t) :=
  congrArg mk (BitVec.or_assoc ..)

theorem union_comm (s t : KindSet) : s.union t = t.union s :=
  congrArg mk (BitVec.or_comm ..)

theorem empty_union (s : KindSet) : empty.union s = s :=
  congrArg mk BitVec.zero_or

end KindSet

/-- A union begun at any set is that set joined to the union of the rest; with
commutativity this is why the order of the kinds is lost. -/
theorem foldl_union (sets : List KindSet) (first : KindSet) :
    sets.foldl .union first = first.union (unionKinds sets) := by
  induction sets generalizing first with
  | nil => exact (KindSet.union_comm _ _).trans (KindSet.empty_union _) |>.symm
  | cons set sets ih =>
    have hcons : unionKinds (set :: sets) = set.union (unionKinds sets) := by
      rw [← ih set, unionKinds, List.foldl_cons, KindSet.empty_union]
    rw [List.foldl_cons, ih, hcons, KindSet.union_assoc]

/-- Kinds are gathered one value after the other. -/
theorem unionKinds_append (sets sets' : List KindSet) :
    unionKinds (sets ++ sets')
      = (unionKinds sets).union (unionKinds sets') := by
  rw [unionKinds, List.foldl_append, foldl_union]
  rfl

/-- One more path is asked for. -/
theorem eq_pathsOf_of_add {separator : Char} {values : List String}
    {value : String} {paths : PathFilter}
    (h : (pathsOf separator values).add value separator = .ok paths) :
    paths = pathsOf separator (values ++ [value]) := by
  unfold pathsOf at h ⊢
  rw [List.any_append, List.any_cons, List.any_nil, Bool.or_false,
    List.filterMap_append]
  split at h
  · next hall =>
    rw [hall, Bool.true_or, if_pos rfl]
    exact (Except.ok.inj h).symm
  · next hsome =>
    rw [Bool.not_eq_true] at hsome
    rw [hsome, Bool.false_or]
    rw [PathFilter.add] at h
    split at h
    · next hall =>
      rw [if_pos hall]
      exact (Except.ok.inj h).symm
    · next hone =>
      rw [if_neg hone]
      cases hparse : PathPattern.parse value with
      | error e => rw [hparse] at h; cases h
      | ok pattern =>
        rw [hparse] at h
        simp [← Except.ok.inj h, hparse, Except.toOption]

/-- What is added to a dimension are the values that can be read. -/
theorem eq_of_bind_mapM {α β : Type} {read : α → Except FilterError β}
    {xs : List α} {ask : List β → InodeFilter} {g : InodeFilter}
    (h : (xs.mapM read >>= fun ys => pure (ask ys)) = .ok g) :
    g = ask (xs.filterMap fun x => (read x).toOption) := by
  cases hread : xs.mapM read with
  | error e =>
    rw [hread] at h
    cases h
  | ok ys =>
    rw [hread] at h
    cases h
    rw [filterMap_of_mapM hread]

/-- A filter of what terms ask for stays one if a term is added. -/
theorem addValue_ofTerms {zone : Calendar.Zone} {s : Summary}
    {terms : List (String × String)} {key value : String}
    {field : FilterField} {g : InodeFilter}
    (hkey : FilterField.ofKey? key = some field)
    (h : (InodeFilter.ofTerms zone s terms).addValue zone s value field
      = .ok g) :
    g = InodeFilter.ofTerms zone s (terms ++ [(key, value)]) := by
  have hasked := asked_append terms value hkey
  have hpaths := askedPaths_append terms value hkey
  have hkinds := asksKinds_append terms value hkey
  -- every field has a list of its own, which gains what the value reads as;
  -- paths are added one by one, and kinds to those asked for so far
  cases field with
  | physical | logical | length | inode | size | travel | extents | atime
  | crtime | ctime | mtime =>
    rw [eq_of_bind_mapM h]
    simp [InodeFilter.ofTerms, hasked, hpaths, hkinds, valuesOf_append,
      flagsOf_append]
  | flags mode =>
    rw [eq_of_bind_mapM h]
    simp [InodeFilter.ofTerms, hasked, hpaths, hkinds, valuesOf_append,
      flagsOf_append]
  | path =>
    unfold InodeFilter.addValue at h
    dsimp only at h
    split at h
    · next paths hadd =>
      cases h
      simp [InodeFilter.ofTerms, hasked, hpaths, hkinds, valuesOf_append,
        flagsOf_append, eq_pathsOf_of_add hadd]
    · cases h
  | kind =>
    rw [eq_of_bind_mapM h]
    cases hasks : asksKinds terms with
    | false =>
      simp [InodeFilter.ofTerms, hasked, hpaths, hkinds, valuesOf_append,
        flagsOf_append, ExtentFilter.addKinds, hasks,
        valuesOf_kind_eq_nil hasks, unionKinds]
    | true =>
      simp [InodeFilter.ofTerms, hasked, hpaths, hkinds, valuesOf_append,
        flagsOf_append, ExtentFilter.addKinds, hasks, unionKinds_append]
      rfl

/-- What is read is the filter of what the terms ask for. -/
theorem addTerms_ofTerms {zone : Calendar.Zone} {s : Summary}
    {before : List (String × String)} {terms : List FilterTerm}
    {g : InodeFilter}
    (h : terms.foldlM (InodeFilter.addTerm zone s) (.ofTerms zone s before)
      = .ok g) :
    g = .ofTerms zone s (before ++ terms.map (·.content)) := by
  induction terms generalizing before with
  | nil =>
    cases h
    rw [List.map_nil, List.append_nil]
  | cons term terms ih =>
    rw [List.foldlM_cons] at h
    cases hterm : InodeFilter.addTerm zone s (.ofTerms zone s before) term with
    | error e => rw [hterm] at h; cases h
    | ok next =>
      rw [hterm] at h
      unfold InodeFilter.addTerm at hterm
      split at hterm
      · cases hterm
      · split at hterm
        · cases hterm
        · next field hkey =>
          obtain rfl := addValue_ofTerms hkey hterm
          rw [ih h, List.map_cons, List.append_assoc]
          rfl

theorem read_eq_ofTerms {zone : Calendar.Zone} {s : Summary} {text : String}
    {terms : List FilterTerm} {g : InodeFilter}
    (hterms : FilterTerm.read text = .ok terms)
    (h : InodeFilter.read zone s text = .ok g) :
    g = .ofTerms zone s (terms.map (·.content)) := by
  rw [InodeFilter.read, hterms] at h
  exact @addTerms_ofTerms zone s [] terms g h

-- ============================================================ regrouping

/-- Do terms ask for the same, in whatever order? -/
structure SameAsks (terms terms' : List (String × String)) : Prop where
  asked : (asked terms).Perm (asked terms')
  paths : (askedPaths terms).Perm (askedPaths terms')
  kinds : asksKinds terms = asksKinds terms'

/-- The only key that asks for a path is `path`, so the patterns of a filter
come from the terms of one key. -/
theorem FilterField.eq_path {key : String}
    (h : FilterField.ofKey? key = some .path) : key = "path" := by
  have hkeys : ∀ entry ∈ FilterField.keys,
      entry.2 = .path → entry.1 = "path" := by
    decide
  exact hkeys (key, .path) (FilterField.mem_keys h) rfl

/-- A list and its items by themselves have the same items. -/
theorem items_split {values : List (List Char)}
    (h : ∀ value ∈ values, ',' ∉ value ∧ trim value ≠ []) :
    items (String.ofList ([','].intercalate values)) = values.map trim ∧
      ∀ value ∈ values, items (String.ofList (trim value)) = [trim value] := by
  have hapart : ∀ value ∈ values, ∀ c ∈ value, (c == ',') = false := by
    intro value hvalue c hc
    rw [beq_eq_false_iff_ne]
    rintro rfl
    exact (h value hvalue).1 hc
  constructor
  · rw [items, String.toList_ofList, pieces_intercalate rfl hapart,
      List.filter_eq_self]
    intro part hpart
    obtain ⟨value, hvalue, rfl⟩ := List.mem_map.1 hpart
    rw [List.isEmpty_eq_false_iff.2 (h value hvalue).2]
    rfl
  · intro value hvalue
    have hone : splitAt (· == ',') (trim value) = [trim value] :=
      splitAt_of_none fun c hc => hapart value hvalue c (mem_of_mem_trim hc)
    have hfull := List.isEmpty_eq_false_iff.2 (h value hvalue).2
    rw [items, String.toList_ofList, pieces, hone, List.map_singleton,
      trim_trim]
    simp [hfull]

/-- What a list asks for is asked for by its items. -/
theorem asked_split (key : String) {values : List (List Char)}
    (h : ∀ value ∈ values, ',' ∉ value ∧ trim value ≠ []) :
    asked [(key, String.ofList ([','].intercalate values))]
      = asked (values.map fun value => (key, String.ofList (trim value))) := by
  obtain ⟨hitems, hsingle⟩ := items_split h
  cases hkey : FilterField.ofKey? key with
  | none => simp [asked, hkey]
  | some field =>
    have hone : ∀ value ∈ values,
        (items (String.ofList (trim value))).map (field, ·)
          = [(field, trim value)] := by
      intro value hvalue
      rw [hsingle value hvalue, List.map_singleton]
    simp only [asked, List.flatMap_singleton, List.flatMap_map, hkey, hitems]
    rw [List.flatMap_def, List.map_congr_left hone, ← List.flatMap_def,
      ← List.map_eq_flatMap, List.map_map]
    rfl

/-- Two lists of terms that are regrouped alike ask the same of every field, up
to order. Everything a filter holds is read from these three lists. -/
theorem Regrouped.sameAsks {terms terms' : List (String × String)}
    (h : Regrouped terms terms') : SameAsks terms terms' := by
  induction h with
  | permuted h =>
    exact ⟨h.flatMap_right _, (h.filter _).map _, h.any_eq⟩
  | split before after hkey hne hvalues =>
    next key values =>
    have hpath : FilterField.ofKey? key ≠ some .path := fun h =>
      hkey (FilterField.eq_path h)
    rw [List.append_cons]
    refine ⟨.of_eq ?_, .of_eq ?_, ?_⟩
    · have happend : ∀ terms terms', asked (terms ++ terms')
          = asked terms ++ asked terms' := fun _ _ => List.flatMap_append
      rw [happend, happend, happend, happend, asked_split key hvalues]
    · simp [askedPaths, List.filter_append, hpath]
    · obtain ⟨value, values, rfl⟩ := List.exists_cons_of_ne_nil hne
      -- each of the terms asks for kinds, or none of them
      have hconst : ∀ asks : Bool,
          (asks || values.any fun _ => asks) = asks := by
        intro asks
        cases asks with
        | true => rfl
        | false => exact List.any_eq_false.2 fun _ _ => Bool.false_ne_true
      simp only [asksKinds, List.any_append, List.any_cons, List.any_nil,
        List.map_cons, List.any_map, Function.comp_def, Bool.or_false,
        hconst]
  | symm _ ih => exact ⟨ih.asked.symm, ih.paths.symm, ih.kinds.symm⟩
  | trans _ _ ih ih' =>
    exact ⟨ih.asked.trans ih'.asked, ih.paths.trans ih'.paths,
      ih.kinds.trans ih'.kinds⟩

-- ============================================================= dimensions

namespace Span

variable {α : Type} [LE α] [DecidableLE α] {spans spans' : List (Span α)}

/-- No dimension heeds the order of its spans. -/
theorem anyContains_perm (h : spans.Perm spans') (value : α) :
    anyContains spans value = anyContains spans' value := by
  rw [anyContains, anyContains, h.isEmpty_eq, h.any_eq]

/-- A test of `some span holds it` does not see the order of the spans; the
same for overlaps and for the union of kinds. -/
theorem anyContainsOpt_perm (h : spans.Perm spans') (value : Option α) :
    anyContainsOpt spans value = anyContainsOpt spans' value := by
  cases value with
  | none => exact h.isEmpty_eq
  | some value => exact anyContains_perm h value

theorem anyOverlaps_perm (h : spans.Perm spans') (first last : α) :
    anyOverlaps spans first last = anyOverlaps spans' first last := by
  rw [anyOverlaps, anyOverlaps, h.isEmpty_eq, h.any_eq]

end Span

theorem unionKinds_perm {sets sets' : List KindSet} (h : sets.Perm sets') :
    unionKinds sets = unionKinds sets' := by
  refine h.foldl_eq' (fun s _ t _ first => ?_) _
  rw [KindSet.union_assoc, KindSet.union_comm s, ← KindSet.union_assoc]

/-- The order of paths does not matter, where all are asked for or not. -/
theorem pathsOf_perm {values values' : List String} (h : values.Perm values')
    (separator : Char) :
    (pathsOf separator values).isActive
        = (pathsOf separator values').isActive ∧
      ∀ path, (pathsOf separator values).accepts path
        = (pathsOf separator values').accepts path := by
  have hpatterns := h.filterMap fun value => (PathPattern.parse value).toOption
  unfold pathsOf
  rw [h.any_eq]
  split
  · exact ⟨rfl, fun _ => rfl⟩
  · simp only [PathFilter.accepts, PathFilter.isActive, PathFilter.values,
      hpatterns.isEmpty_eq, hpatterns.any_eq, and_self, implies_true]

namespace SameAsks

variable {terms terms' : List (String × String)} (h : SameAsks terms terms')

include h

theorem valuesOf {α : Type} (field : FilterField)
    (read : List Char → Except FilterError α) :
    (DiskAtlas.valuesOf field read (DiskAtlas.asked terms)).Perm
      (DiskAtlas.valuesOf field read (DiskAtlas.asked terms')) :=
  h.asked.filterMap _

/-- Terms that ask for the same make filters that agree. -/
theorem agrees (zone : Calendar.Zone) (s : Summary) :
    (InodeFilter.ofTerms zone s terms).Agrees (.ofTerms zone s terms') := by
  have hflags : (flagsOf (DiskAtlas.asked terms)).Perm
      (flagsOf (DiskAtlas.asked terms')) := h.asked.filterMap _
  have hkinds : (InodeFilter.ofTerms zone s terms).extent.kinds
      = (InodeFilter.ofTerms zone s terms').extent.kinds := by
    simp only [InodeFilter.ofTerms, h.kinds,
      unionKinds_perm (h.valuesOf .kind readKinds)]
  obtain ⟨hactive, hpath⟩ := pathsOf_perm h.paths s.separator
  have hphysical := h.valuesOf .physical (readOffsetSpan s)
  have hlogical := h.valuesOf .logical (readOffsetSpan s)
  have hlengths := h.valuesOf .length (readOffsetSpan s)
  have hinodes := h.valuesOf .inode readInodeSpan
  -- every test is an `any` or an emptiness, and sees its list up to order
  constructor
  case extent =>
    intro e
    have hcovers : (InodeFilter.ofTerms zone s terms).extent.acceptsLogical e
        = (InodeFilter.ofTerms zone s terms').extent.acceptsLogical e := by
      unfold ExtentFilter.acceptsLogical
      split
      · exact Span.anyOverlaps_perm hlogical _ _
      · exact hlogical.isEmpty_eq
    rw [ExtentFilter.accepts, ExtentFilter.accepts, hcovers, hkinds]
    simp only [InodeFilter.ofTerms, Span.anyContains_perm hinodes,
      Span.anyOverlaps_perm hphysical, Span.anyContains_perm hlengths,
      hflags.isEmpty_eq, hflags.any_eq]
  case restricts =>
    rw [ExtentFilter.restrictsExtents, ExtentFilter.restrictsExtents, hkinds]
    simp only [InodeFilter.ofTerms, hphysical.isEmpty_eq,
      hlogical.isEmpty_eq, hlengths.isEmpty_eq, hflags.isEmpty_eq]
  case path => exact hpath
  case active => exact hactive
  case row =>
    intro inode
    simp only [InodeFilter.acceptsRow, InodeFilter.ofTerms,
      Span.anyContains_perm hinodes,
      Span.anyContainsOpt_perm (h.valuesOf .size (readOffsetSpan s)),
      Span.anyContainsOpt_perm (h.valuesOf .atime (readTimeSpan zone)),
      Span.anyContainsOpt_perm (h.valuesOf .crtime (readTimeSpan zone)),
      Span.anyContainsOpt_perm (h.valuesOf .ctime (readTimeSpan zone)),
      Span.anyContainsOpt_perm (h.valuesOf .mtime (readTimeSpan zone))]
  case stats =>
    intro stats
    simp only [InodeFilter.acceptsStats, InodeFilter.ofTerms,
      Span.anyContains_perm (h.valuesOf .travel readScoreSpan),
      Span.anyContains_perm (h.valuesOf .extents readCountSpan)]

end SameAsks

/-- If the terms of two texts differ only in their order and in how the
values of a key are grouped, and both are read, the filters agree. -/
theorem InodeFilter.read_regrouped {zone : Calendar.Zone} {s : Summary}
    {text text' : String} {terms terms' : List FilterTerm} {f g : InodeFilter}
    (hterms : FilterTerm.read text = .ok terms)
    (hterms' : FilterTerm.read text' = .ok terms')
    (hsame : Regrouped (terms.map (·.content)) (terms'.map (·.content)))
    (hf : InodeFilter.read zone s text = .ok f)
    (hg : InodeFilter.read zone s text' = .ok g) :
    f.Agrees g := by
  rw [read_eq_ofTerms hterms hf, read_eq_ofTerms hterms' hg]
  exact hsame.sameAsks.agrees zone s

private theorem eq_ok_of_toOption {ε α : Type} {x : Except ε α} {a : α}
    (h : x.toOption = some a) : x = .ok a := by
  cases x with
  | error e => cases h
  | ok b => exact congrArg _ (Option.some.inj h)

private theorem exists_eq_ok {ε α : Type} {x : Except ε α}
    (h : x.toOption.isSome = true) : ∃ a, x = .ok a := by
  obtain ⟨a, ha⟩ := Option.isSome_iff_exists.1 h
  exact ⟨a, eq_ok_of_toOption ha⟩

/-- A list of kinds is split, and terms go in between. One of them asks for
a day by clocks that are two hours ahead. -/
theorem InodeFilter.read_regrouped_kinds :
    let zone : Calendar.Zone := .fixed 7200 (by decide)
    ∃ f g, InodeFilter.read zone (.blank "/")
        "type:f,d path:/a* ino:-2-3 mtime:2021-03-28 path:*" = .ok f ∧
      InodeFilter.read zone (.blank "/")
        "path:* type:f mtime:2021-03-28 ino:-2-3 type:d path:/a*" = .ok g ∧
      f.Agrees g := by
  intro zone
  let text := "type:f,d path:/a* ino:-2-3 mtime:2021-03-28 path:*"
  let text' := "path:* type:f mtime:2021-03-28 ino:-2-3 type:d path:/a*"
  -- the kinds are cut into two terms first, and then all terms move
  have hsplit : Regrouped
      [("type", "f,d"), ("path", "/a*"), ("ino", "-2-3"),
        ("mtime", "2021-03-28"), ("path", "*")]
      [("type", "f"), ("type", "d"), ("path", "/a*"), ("ino", "-2-3"),
        ("mtime", "2021-03-28"), ("path", "*")] := by
    have hvalues : ∀ value ∈ [['f'], ['d']], ',' ∉ value ∧ trim value ≠ [] := by
      decide
    exact .split [] [("path", "/a*"), ("ino", "-2-3"),
      ("mtime", "2021-03-28"), ("path", "*")]
      (by decide) (List.cons_ne_nil _ _) hvalues
  have hread : FilterTerm.read text = .ok [⟨"type", "f,d", 0⟩,
      ⟨"path", "/a*", 9⟩, ⟨"ino", "-2-3", 18⟩, ⟨"mtime", "2021-03-28", 27⟩,
      ⟨"path", "*", 44⟩] :=
    eq_ok_of_toOption (by decide +kernel)
  have hread' : FilterTerm.read text' = .ok [⟨"path", "*", 0⟩,
      ⟨"type", "f", 7⟩, ⟨"mtime", "2021-03-28", 14⟩, ⟨"ino", "-2-3", 31⟩,
      ⟨"type", "d", 40⟩, ⟨"path", "/a*", 47⟩] :=
    eq_ok_of_toOption (by decide +kernel)
  obtain ⟨f, hf⟩ : ∃ f, InodeFilter.read zone (.blank "/") text = .ok f :=
    exists_eq_ok (by decide +kernel)
  obtain ⟨g, hg⟩ : ∃ g, InodeFilter.read zone (.blank "/") text' = .ok g :=
    exists_eq_ok (by decide +kernel)
  refine ⟨f, g, hf, hg, read_regrouped hread hread' ?_ hf hg⟩
  refine hsplit.trans (.permuted ?_)
  decide

end DiskAtlas
