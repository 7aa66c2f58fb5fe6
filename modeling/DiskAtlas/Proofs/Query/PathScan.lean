/-
Scanning the table of paths finds what matching every path would. A glob
is read into tokens from the left, each step keeping the tokens so far, so
the characters before the first wildcard become the first tokens
(`stem_tokens`), and every path that the tokens match begins with them
(`stem_of_accepts`): asking for the stem besides the tokens leaves nothing
out. In a table ordered by bytes the paths with a stem stand next to each
other, right behind all that is below the stem (`withStem_stretch`).
-/
import DiskAtlas.Proofs.Query.Stem
import DiskAtlas.Proofs.Text.ByteOrder

namespace DiskAtlas

-- ============================================================== reading

/-- Where two steps end well, so does the first. -/
private theorem exists_of_bind_eq_ok {ε α β : Type} {x : Except ε α}
    {f : α → Except ε β} {b : β} (h : (x >>= f) = .ok b) :
    ∃ a, x = .ok a ∧ f a = .ok b := by
  cases x with
  | error e => cases h
  | ok a => exact ⟨a, rfl, h⟩

namespace Glob

variable {fuel position : Nat} {before : Option Char}
  {done tokens : List Token} {rest : List Char}

/-- What is read is kept. -/
theorem done_suffix_pushComponents : done <:+ pushComponents done := by
  unfold pushComponents
  split
  · exact List.suffix_rfl
  · exact List.suffix_cons _ _

/-- The tokens so far are the first of all tokens. -/
theorem done_prefix_readTokens
    (h : readTokens fuel position before done rest = .ok tokens) :
    done.reverse <+: tokens := by
  induction fuel generalizing position before done rest with
  | zero =>
    cases h
    exact List.prefix_rfl
  | succ fuel ih =>
    -- whatever the next step reads, it is put in front of `done`
    have hnext : ∀ {position before next rest}, done <:+ next →
        readTokens fuel position before next rest = .ok tokens →
        done.reverse <+: tokens := fun hdone h =>
      (List.reverse_prefix.2 hdone).trans (ih h)
    cases rest with
    | nil =>
      cases h
      exact List.prefix_rfl
    | cons c rest =>
      simp only [readTokens] at h
      split at h
      · exact hnext (List.suffix_cons _ _) h
      · split at h
        · exact hnext (List.suffix_cons _ _) h
        · obtain ⟨tail, -, h⟩ := exists_of_bind_eq_ok h
          exact hnext done_suffix_pushComponents h
        · cases h
      · split at h
        · exact hnext (List.suffix_cons _ _) h
        · cases h
      · exact hnext (List.suffix_cons _ _) h

/-- The characters in front of the first wildcard are read as they are. -/
theorem literals_prefix_readTokens (hfuel : rest.length ≤ fuel)
    (h : readTokens fuel position before done rest = .ok tokens) :
    done.reverse ++ (PathPattern.stemOf rest).map .char <+: tokens := by
  induction rest generalizing fuel position before done with
  | nil =>
    rw [PathPattern.stemOf, List.takeWhile_nil, List.map_nil, List.append_nil]
    exact done_prefix_readTokens h
  | cons c rest ih =>
    by_cases hc : PathPattern.isWildcard c = true
    · rw [PathPattern.stemOf, List.takeWhile_cons_of_neg (by simp [hc]),
        List.map_nil, List.append_nil]
      exact done_prefix_readTokens h
    · rw [PathPattern.stemOf, List.takeWhile_cons_of_pos (by simp [hc])]
      simp only [PathPattern.isWildcard, Bool.or_eq_true, beq_iff_eq,
        not_or] at hc
      obtain ⟨⟨hstar, hmark⟩, hbracket⟩ := hc
      cases fuel with
      | zero => exact absurd hfuel (Nat.not_succ_le_zero _)
      | succ fuel =>
        simp only [readTokens] at h
        have hrest := ih (Nat.le_of_succ_le_succ hfuel) h
        rwa [List.reverse_cons, List.append_assoc] at hrest

/-- The tokens of a text begin with its characters up to the first
wildcard. -/
theorem stem_tokens {text : List Char} (h : parse text = .ok tokens) :
    (PathPattern.stemOf text).map .char <+: tokens :=
  literals_prefix_readTokens (Nat.le_refl _) h

-- ============================================================= matching

/-- What tokens match begins with the characters that they begin with. -/
theorem literals_prefix_of_hit {chars text : List Char}
    (h : matchTokens (chars.map .char ++ tokens) text = .hit) :
    chars <+: text := by
  induction chars generalizing text with
  | nil => exact List.nil_prefix
  | cons c chars ih =>
    cases text with
    | nil => cases h
    | cons d text =>
      simp only [List.map_cons, List.cons_append, matchTokens,
        Token.accepts, beq_iff_eq] at h
      split at h
      · next hcd => exact List.cons_prefix_cons.2 ⟨hcd.symm, ih h⟩
      · cases h

/-- Every path that a glob matches begins with the text in front of its
first wildcard. -/
theorem stem_of_accepts {text path : List Char}
    (hread : parse text = .ok tokens) (h : accepts tokens path = true) :
    PathPattern.stemOf text <+: path := by
  obtain ⟨behind, rfl⟩ := stem_tokens hread
  exact literals_prefix_of_hit (beq_iff_eq.1 h)

end Glob

-- ============================================================= patterns

namespace PathPattern

/-- An exact path, or a glob as it is read from its text. -/
inductive Genuine : PathPattern → Prop
  | exact (path : String) : Genuine (.exact path)
  | glob {text stem : String} {tokens : List Glob.Token}
    (hread : parse text = .ok (.glob text tokens stem)) :
    Genuine (.glob text tokens stem)

/-- A path is the exact one, or the tokens of the glob match it, whether or
not it has the stem. -/
def MatchesAlone (path : String) : PathPattern → Prop
  | .exact wanted => path = wanted
  | .glob _ tokens _ => Glob.accepts tokens path.toList = true

/-- What a text is read as: its tokens and its stem for a glob, and itself
otherwise. -/
theorem parse_eq_ok_iff {text : String} {pattern : PathPattern} :
    parse text = .ok pattern ↔
      if text.toList.any isWildcard then
        ∃ tokens, Glob.parse text.toList = .ok tokens ∧
          pattern = .glob text tokens (.ofList (stemOf text.toList))
      else pattern = .exact text := by
  unfold parse
  split
  · cases Glob.parse text.toList with
    | error e => simp [bind, Except.bind]
    | ok tokens => simp [bind, Except.bind, pure, Except.pure, eq_comm]
  · simp [eq_comm]

theorem genuine_of_parse {text : String} {pattern : PathPattern}
    (h : parse text = .ok pattern) : pattern.Genuine := by
  have hcases := parse_eq_ok_iff.1 h
  split at hcases
  · obtain ⟨tokens, -, rfl⟩ := hcases
    exact .glob h
  · rw [hcases]
    exact .exact text

/-- The tokens and the stem of a glob are those of its text. -/
theorem glob_parsed {text stem : String} {tokens : List Glob.Token}
    (h : parse text = .ok (.glob text tokens stem)) :
    Glob.parse text.toList = .ok tokens ∧
      stem.toList = stemOf text.toList ∧
      text.toList.any isWildcard = true := by
  have hcases := parse_eq_ok_iff.1 h
  split at hcases
  · next hany =>
    obtain ⟨tokens', hparse, heq⟩ := hcases
    injection heq with _ htokens hstem
    rw [htokens, hstem, String.toList_ofList]
    exact ⟨hparse, rfl, hany⟩
  · cases hcases

/-- Asking for the stem besides the tokens leaves no path out. -/
theorem accepts_eq_true_iff {pattern : PathPattern} {path : String}
    (h : pattern.Genuine) :
    pattern.accepts path = true ↔ pattern.MatchesAlone path := by
  cases h with
  | exact wanted =>
    rw [accepts, MatchesAlone, beq_iff_eq, eq_comm]
  | glob hread =>
    obtain ⟨hparse, hstem, -⟩ := glob_parsed hread
    rw [accepts, Bool.and_eq_true, List.isPrefixOf_iff_prefix, hstem]
    exact and_iff_right_of_imp (Glob.stem_of_accepts hparse)

/-- A stem is the text in front of the first wildcard. -/
structure IsStem (text stem : String) : Prop where
  literal : ∀ c ∈ stem.toList, c ∉ ['*', '?', '[']
  ended : ∃ c ∈ ['*', '?', '['], stem.toList ++ [c] <+: text.toList

theorem isWildcard_eq_true_iff {c : Char} :
    isWildcard c = true ↔ c ∈ ['*', '?', '['] := by
  simp [isWildcard, or_assoc]

theorem isWildcard_of_mem_stemOf {c : Char} {text : List Char}
    (h : c ∈ stemOf text) : isWildcard c = false := by
  have hall := List.all_eq_true.1
    (List.all_takeWhile (l := text) (p := fun c => !isWildcard c)) c h
  rwa [Bool.not_eq_true'] at hall

/-- Behind the stem stands a wildcard. -/
theorem stemOf_ended {text : List Char} (h : text.any isWildcard = true) :
    ∃ c, isWildcard c = true ∧ stemOf text ++ [c] <+: text := by
  induction text with
  | nil => cases h
  | cons c rest ih =>
    by_cases hc : isWildcard c = true
    · rw [stemOf, List.takeWhile_cons_of_neg (by simp [hc])]
      exact ⟨c, hc, List.prefix_append [c] rest⟩
    · rw [List.any_cons, Bool.or_eq_true] at h
      obtain ⟨d, hd, hrest⟩ := ih (h.resolve_left hc)
      rw [stemOf, List.takeWhile_cons_of_pos (by simp [hc])]
      exact ⟨d, hd, List.cons_prefix_cons.2 ⟨rfl, hrest⟩⟩

/-- The stem that is kept with a glob is the text before its first wildcard. -/
theorem isStem_of_parse {text stem : String} {tokens : List Glob.Token}
    (h : parse text = .ok (.glob text tokens stem)) : IsStem text stem := by
  obtain ⟨-, hstem, hany⟩ := glob_parsed h
  constructor
  · intro c hc
    rw [hstem] at hc
    rw [← isWildcard_eq_true_iff, isWildcard_of_mem_stemOf hc]
    exact Bool.false_ne_true
  · obtain ⟨c, hc, hended⟩ := stemOf_ended hany
    rw [hstem]
    exact ⟨c, isWildcard_eq_true_iff.1 hc, hended⟩

end PathPattern

-- =========================================================== dimensions

namespace PathFilter

/-- All patterns are what was read from values. -/
def Genuine (f : PathFilter) : Prop := ∀ p ∈ f.values, p.Genuine

/-- Asking for one more value keeps all patterns genuine. -/
theorem Genuine.add {f f' : PathFilter} {value : String} {separator : Char}
    (hf : f.Genuine) (h : f.add value separator = .ok f') : f'.Genuine := by
  cases f with
  | everything =>
    cases h
    exact hf
  | patterns values =>
    rw [PathFilter.add] at h
    split at h
    · cases h
      nofun
    · cases hparse : PathPattern.parse value with
      | error e =>
        rw [hparse] at h
        cases h
      | ok p =>
        rw [hparse] at h
        cases h
        intro q hq
        rcases List.mem_append.1 hq with hq | hq
        · exact hf q hq
        · rw [List.mem_singleton.1 hq]
          exact PathPattern.genuine_of_parse hparse

/-- So all patterns that values leave behind are genuine. -/
theorem genuine_foldlM (values : List String) {separator : Char}
    {f f' : PathFilter} (hf : f.Genuine)
    (h : values.foldlM (fun f value => f.add value separator) f = .ok f') :
    f'.Genuine := by
  induction values generalizing f with
  | nil =>
    cases h
    exact hf
  | cons value values ih =>
    rw [List.foldlM_cons] at h
    obtain ⟨next, hadd, h⟩ := exists_of_bind_eq_ok h
    exact ih (hf.add hadd) h

end PathFilter

-- =============================================================== tables

namespace Query

open Text

/-- The order of strings is the order of their bytes. -/
theorem compare_eq_lt_iff_bytes {s t : String} :
    compare s t = .lt ↔ utf8Bytes s < utf8Bytes t := by
  rw [compare_string_eq_lt, utf8Bytes_lt_iff]

/-- The entries of a table whose paths have a stem stand next to each
other, behind all that is below the stem and before all that is beyond
it. -/
structure Stretch (stem : String) (entries below found beyond :
    List (String × Int64)) : Prop where
  split : entries = below ++ found ++ beyond
  below : ∀ e ∈ below, utf8Bytes e.1 < utf8Bytes stem
  found : ∀ e ∈ found, utf8Bytes stem <+: utf8Bytes e.1
  beyond : ∀ e ∈ beyond, utf8Bytes stem < utf8Bytes e.1 ∧
    ¬ utf8Bytes stem <+: utf8Bytes e.1

/-- From the first path that is not below the stem on, none is. -/
theorem not_below_dropWhile {stem : String}
    {entries : List (String × Int64)}
    (hsorted : entries.Pairwise fun a b => compare a.1 b.1 = .lt) :
    ∀ e ∈ entries.dropWhile fun e => compare e.1 stem == .lt,
      compare e.1 stem ≠ .lt := by
  induction entries with
  | nil => nofun
  | cons a rest ih =>
    by_cases ha : compare a.1 stem = .lt
    · rw [List.dropWhile_cons_of_pos (by simp [ha])]
      exact ih (List.pairwise_cons.1 hsorted).2
    · rw [List.dropWhile_cons_of_neg (by simp [ha])]
      exact not_below_of_head hsorted ha

/-- What the scan leaves behind has not the stem. -/
theorem not_hasStem_beyond {stem : String}
    {entries below beyond : List (String × Int64)}
    (hsorted : entries.Pairwise fun a b => compare a.1 b.1 = .lt)
    (h : entries = below ++ withStem stem entries ++ beyond) :
    ∀ e ∈ beyond, ¬ hasStem stem e = true := by
  have hself : (entries.filter (hasStem stem)).filter (hasStem stem)
      = entries.filter (hasStem stem) :=
    List.filter_eq_self.2 fun e he => (List.mem_filter.1 he).2
  -- the scan has all entries with the stem, so none is left to be counted
  have hlength := congrArg (fun es => (es.filter (hasStem stem)).length) h
  simp only [withStem_eq_filter hsorted, List.filter_append, hself,
    List.length_append] at hlength
  refine List.filter_eq_nil_iff.1 (List.length_eq_zero_iff.1 ?_)
  omega

/-- The scan reads the stretch of a stem. -/
theorem withStem_stretch {stem : String} {entries : List (String × Int64)}
    (hsorted : entries.Pairwise fun a b => compare a.1 b.1 = .lt) :
    ∃ below beyond,
      Stretch stem entries below (withStem stem entries) beyond := by
  let low := fun e : String × Int64 => compare e.1 stem == .lt
  have hsplit : entries = entries.takeWhile low ++ withStem stem entries ++
      (entries.dropWhile low).dropWhile (hasStem stem) := by
    rw [List.append_assoc]
    show entries = _ ++ ((entries.dropWhile low).takeWhile (hasStem stem) ++
      (entries.dropWhile low).dropWhile (hasStem stem))
    rw [List.takeWhile_append_dropWhile, List.takeWhile_append_dropWhile]
  refine ⟨_, _, hsplit, fun e he => ?_, fun e he => ?_, fun e he => ?_⟩
  · have hlow := List.all_eq_true.1 List.all_takeWhile e he
    exact compare_eq_lt_iff_bytes.1 (beq_iff_eq.1 hlow)
  · rw [withStem_eq_filter hsorted] at he
    exact utf8Bytes_prefix_iff.2
      (hasStem_eq_true_iff.1 (List.mem_filter.1 he).2)
  · have hnot := not_hasStem_beyond hsorted hsplit e he
    rw [hasStem_eq_true_iff, ← utf8Bytes_prefix_iff] at hnot
    have hhigh := not_below_dropWhile hsorted e
      ((List.dropWhile_sublist _).subset he)
    -- the stem itself would have been found
    cases hcmp : compare e.1 stem with
    | lt => exact absurd hcmp hhigh
    | eq =>
      rw [Std.LawfulEqOrd.compare_eq_iff_eq.1 hcmp] at hnot
      exact absurd List.prefix_rfl hnot
    | gt =>
      exact ⟨compare_eq_lt_iff_bytes.1 (Std.OrientedCmp.lt_of_gt hcmp), hnot⟩

-- =========================================================== the scan

variable {β : Type}

/-- Some path that names the inode matches a pattern, the stems of globs
not being asked for. -/
def NamedAlone (t : Tables) (paths : PathFilter) (ino : Int64) : Prop :=
  ∃ path, (path, ino) ∈ t.paths.entries ∧
    ∃ pattern ∈ paths.values, pattern.MatchesAlone path

/-- The path dimension finds the inodes of all paths that match. A glob is
asked of those paths only that have its stem, but these are all paths that
it matches, and they stand next to each other where the stem would stand
in the table, which is ordered by bytes. -/
theorem inodesOfPaths_scanned {s : Store β} {paths : PathFilter}
    (h : paths.Genuine) :
    (∀ ino, ino ∈ inodesOfPaths s paths ↔ NamedAlone s.tables paths ino) ∧
    (s.tables.paths.entries.Pairwise fun a b =>
      utf8Bytes a.1 < utf8Bytes b.1) ∧
    ∀ text tokens stem, .glob text tokens stem ∈ paths.values →
      PathPattern.IsStem text stem ∧
      (∀ path, Glob.accepts tokens path.toList = true →
        utf8Bytes stem <+: utf8Bytes path) ∧
      ∃ below beyond, Stretch stem s.tables.paths.entries below
        (withStem stem s.tables.paths.entries) beyond := by
  refine ⟨fun ino => ?_, ?_, fun text tokens stem hglob => ?_⟩
  · rw [mem_inodesOfPaths, NamedAlone]
    constructor
    · rintro ⟨path, hentry, pattern, hpattern, haccepts⟩
      exact ⟨path, hentry, pattern, hpattern,
        (PathPattern.accepts_eq_true_iff (h pattern hpattern)).1 haccepts⟩
    · rintro ⟨path, hentry, pattern, hpattern, hmatches⟩
      exact ⟨path, hentry, pattern, hpattern,
        (PathPattern.accepts_eq_true_iff (h pattern hpattern)).2 hmatches⟩
  · exact s.tables.paths.sorted.imp compare_eq_lt_iff_bytes.1
  · cases h _ hglob with
    | glob hread =>
      obtain ⟨hparse, hstem, -⟩ := PathPattern.glob_parsed hread
      refine ⟨PathPattern.isStem_of_parse hread, fun path haccepts => ?_,
        withStem_stretch s.tables.paths.sorted⟩
      rw [utf8Bytes_prefix_iff, hstem]
      exact Glob.stem_of_accepts hparse haccepts

/-- A table of four paths, one of them with a character of two bytes. -/
def fourPaths : Store Unit where
  backend := ()
  fsPath := "/"
  tables := { Tables.empty with
    paths := .ofList [("/a/b", 7), ("/c", 8), ("/d", 9), ("/é", 10)] }
  index := .empty
  calculated := .empty
  dirty := false

/-- An exact path is asked for and all paths of two characters; the path
of four characters is not found. -/
theorem inodesOfPaths_fourPaths :
    let paths : PathFilter := .patterns [.exact "/c",
      .glob "/?" [.char '/', .anyChar] "/"]
    paths.Genuine ∧ inodesOfPaths fourPaths paths = [8, 8, 9, 10] ∧
      (∀ ino, ino ∈ inodesOfPaths fourPaths paths ↔
        NamedAlone fourPaths.tables paths ino) ∧
      PathPattern.IsStem "/?" "/" := by
  intro paths
  have hnone : PathFilter.none.Genuine := nofun
  have hasked : ["/c", "/?"].foldlM (fun f value => f.add value '/')
      PathFilter.none = .ok paths := rfl
  have hgenuine : paths.Genuine :=
    PathFilter.genuine_foldlM ["/c", "/?"] hnone hasked
  obtain ⟨hscan, -, hglobs⟩ :=
    inodesOfPaths_scanned (s := fourPaths) hgenuine
  have hglob : .glob "/?" [.char '/', .anyChar] "/" ∈ paths.values :=
    List.mem_cons_of_mem _ List.mem_cons_self
  exact ⟨hgenuine, rfl, hscan, (hglobs _ _ _ hglob).1⟩

end Query
end DiskAtlas
