/-
Filters of one term. A value of plain characters is read as it stands
(`read_plain`), one in quotes as what was escaped in it but for blanks at
its ends (`read_quoted`), and a value that is a comma list has the items
that were joined (`pieces_intercalate`). So a plain term is its value, added
to the dimension of its key (`InodeFilter.read_plain`), and a filter for
extents is read like one for inodes wherever it can be
(`ExtentFilter.read_eq`).

A term of plain characters needs no lexing, and most values are of that kind.
Quoting is a matter of its own and comes in `Quoting`.
-/
import DiskAtlas.Filter.Reader
import DiskAtlas.Proofs.Filter.Quoting
import DiskAtlas.Proofs.Text.Numeral

namespace DiskAtlas

open Text FilterValue

-- ===================================================== plain characters

namespace Text

/-- Letters, digits and the marks that names, numbers and ranges are
written with. -/
def IsPlain (c : Char) : Prop :=
  c.isAlphanum = true ∨ c ∈ ['-', '_', '.', '+', ',']

theorem not_isBlank_of_isAlphanum {c : Char} (h : c.isAlphanum = true) :
    isBlank c = false := by
  have hbounds := toNat_of_isAlphanum h
  simp only [isBlank, blankRanges, List.any_cons, List.any_nil,
    Bool.or_false, Bool.or_eq_false_iff, Bool.and_eq_false_iff,
    decide_eq_false_iff_not]
  omega

theorem IsPlain.not_isBlank {c : Char} (h : IsPlain c) :
    isBlank c = false := by
  rcases h with h | h
  · exact not_isBlank_of_isAlphanum h
  · have hmarks : ['-', '_', '.', '+', ','].any isBlank = false := by decide
    exact Bool.eq_false_iff.2 (List.any_eq_false.1 hmarks c h)

/-- A plain text has no blanks at its ends. -/
theorem trim_of_plain {cs : List Char} (h : ∀ c ∈ cs, IsPlain c) :
    trim cs = cs :=
  trim_eq_self (fun c hc => (h c (List.mem_of_head? hc)).not_isBlank)
    fun c hc => (h c (List.mem_of_getLast? hc)).not_isBlank

theorem mem_of_mem_trim {c : Char} {cs : List Char} (h : c ∈ trim cs) :
    c ∈ cs := by
  unfold trim trimEnd trimStart at h
  rw [List.mem_reverse] at h
  have hend := List.dropWhile_subset _ h
  rw [List.mem_reverse] at hend
  exact List.dropWhile_subset _ hend

/-- Trimming twice is trimming once. The reader trims a value once as a whole
and again item by item. -/
theorem trim_trim (cs : List Char) : trim (trim cs) = trim cs := by
  have hbare : ∀ ds : List Char, ∀ c,
      (ds.dropWhile isBlank).head? = some c → isBlank c = false := by
    intro ds c hc
    have hhead := List.head?_dropWhile_not isBlank ds
    rwa [hc] at hhead
  apply trim_eq_self
  · intro c hc
    -- what is taken from the end leaves the front as it is
    obtain ⟨rest, hrest⟩ : trim cs <+: trimStart cs := by
      rw [← List.reverse_suffix, trim, trimEnd, List.reverse_reverse]
      exact List.dropWhile_suffix isBlank
    refine hbare cs c ?_
    show (trimStart cs).head? = some c
    rw [← hrest, List.head?_append, hc]
    rfl
  · intro c hc
    rw [trim, trimEnd, List.getLast?_reverse] at hc
    exact hbare _ c hc

end Text

namespace FilterTerm

theorem not_isMark_of_isPlain {c : Char} (h : IsPlain c) :
    isMark c = false := by
  rcases h with h | h
  · rw [isMark_eq_false_iff]
    constructor
    · rintro rfl
      exact absurd h (by decide)
    · rintro rfl
      exact absurd h (by decide)
  · have hmarks : ['-', '_', '.', '+', ','].any isMark = false := by decide
    exact Bool.eq_false_iff.2 (List.any_eq_false.1 hmarks c h)

-- ============================================================= one term

/-- The text of a single term, with its value as it stands. -/
def oneTerm (key : String) (value : List Char) : String :=
  String.ofList (key.toList ++ ':' :: value)

variable {key : String} {value cs : List Char}

/-- A single term is read if its value ends it. -/
theorem read_oneTerm (hkey : ∀ c ∈ key.toList, c.isAlphanum = true)
    (hvalue : ∀ position, ∃ next,
      lex position none value = ⟨cs, none, [], next⟩) :
    FilterTerm.read (oneTerm key value)
      = .ok [⟨asciiLower key, String.ofList (trim cs), 0⟩] := by
  have hblank : ∀ c ∈ key.toList, isBlank c = false := fun c hc =>
    not_isBlank_of_isAlphanum (hkey c hc)
  have hcolon : ∀ c ∈ key.toList, c ≠ ':' ∧ isBlank c = false := by
    refine fun c hc => ⟨?_, hblank c hc⟩
    rintro rfl
    exact absurd (hkey _ hc) (by decide)
  have hplain : ∀ c ∈ key.toList ++ [':'],
      isMark c = false ∧ isBlank c = false := by
    intro c hc
    rcases List.mem_append.1 hc with hc | hc
    · exact ⟨not_isMark_of_isPlain (.inl (hkey c hc)), hblank c hc⟩
    · rw [List.mem_singleton.1 hc]
      decide
  obtain ⟨next, hnext⟩ := hvalue (0 + byteCount (key.toList ++ [':']))
  -- the key is taken letter by letter, and then the lexer is at the value
  have hlex : lex 0 none ((key.toList ++ [':']) ++ value) = _ :=
    lex_plain hplain
  rw [hnext, Lexed.prepend, List.append_assoc, List.append_assoc,
    List.singleton_append] at hlex
  have hend : readFrom next [] = .ok [] := by rw [readFrom]
  have hbegins : ∃ c rest,
      key.toList ++ ':' :: value = c :: rest ∧ isBlank c = false := by
    cases hkeys : key.toList with
    | nil => exact ⟨':', value, rfl, by decide⟩
    | cons c rest =>
      exact ⟨c, _, rfl, hblank c (hkeys ▸ List.mem_cons_self)⟩
  obtain ⟨c, rest, htext, hc⟩ := hbegins
  rw [FilterTerm.read, oneTerm, String.toList_ofList]
  rw [htext] at hlex ⊢
  rw [readFrom_of_lex hc hlex (ofText_keyed hcolon), hend]
  rfl

/-- A plain value is read as it stands. -/
theorem read_plain (hkey : ∀ c ∈ key.toList, c.isAlphanum = true)
    (hvalue : ∀ c ∈ value, IsPlain c) :
    FilterTerm.read (oneTerm key value)
      = .ok [⟨asciiLower key, String.ofList value, 0⟩] := by
  have hends : ∀ position, ∃ next,
      lex position none value = ⟨value, none, [], next⟩ := by
    intro position
    have hlex : lex position none (value ++ []) = _ :=
      lex_plain fun c hc =>
        ⟨not_isMark_of_isPlain (hvalue c hc), (hvalue c hc).not_isBlank⟩
    rw [List.append_nil, lex, Lexed.prepend, List.append_nil] at hlex
    exact ⟨_, hlex⟩
  rw [read_oneTerm hkey hends, trim_of_plain hvalue]

/-- A value in quotes is read as it was written there, without the blanks
at its ends. -/
theorem read_quoted (hkey : ∀ c ∈ key.toList, c.isAlphanum = true)
    (cs : List Char) :
    FilterTerm.read (oneTerm key ('"' :: escape isMark cs ++ ['"']))
      = .ok [⟨asciiLower key, String.ofList (trim cs), 0⟩] :=
  read_oneTerm hkey fun _ => ⟨_, lex_quoted nofun⟩

end FilterTerm

-- ================================================================ lists

namespace FilterValue

variable {p : Char → Bool} {sep : Char} {cs rest : List Char}

theorem splitAt_of_none (h : ∀ c ∈ cs, p c = false) : splitAt p cs = [cs] := by
  induction cs with
  | nil => rfl
  | cons c cs ih =>
    obtain ⟨hc, hcs⟩ := List.forall_mem_cons.1 h
    rw [splitAt, hc, if_neg Bool.false_ne_true, ih hcs]

theorem splitAt_append (hsep : p sep = true) (h : ∀ c ∈ cs, p c = false) :
    splitAt p (cs ++ sep :: rest) = cs :: splitAt p rest := by
  induction cs with
  | nil => rw [List.nil_append, splitAt, if_pos hsep]
  | cons c cs ih =>
    obtain ⟨hc, hcs⟩ := List.forall_mem_cons.1 h
    rw [List.cons_append, splitAt, hc, if_neg Bool.false_ne_true, ih hcs]

/-- Joined parts have no other characters than theirs and the separator. -/
theorem mem_of_mem_intercalate {parts : List (List Char)} {c : Char}
    (h : c ∈ [sep].intercalate parts) :
    c = sep ∨ ∃ part ∈ parts, c ∈ part := by
  induction parts with
  | nil => cases h
  | cons part parts ih =>
    cases parts with
    | nil =>
      rw [List.intercalate_singleton] at h
      exact .inr ⟨part, List.mem_cons_self, h⟩
    | cons next parts =>
      rw [List.intercalate_cons_cons, List.append_assoc, List.mem_append,
        List.singleton_append, List.mem_cons] at h
      rcases h with hpart | hsep | hparts
      · exact .inr ⟨part, List.mem_cons_self, hpart⟩
      · exact .inl hsep
      · exact (ih hparts).imp_right fun ⟨part, hpart, hc⟩ =>
          ⟨part, List.mem_cons_of_mem _ hpart, hc⟩

/-- Parts that are not empty do not join to the empty text, which the reader
would refuse as a term without a value. -/
theorem intercalate_ne_nil {parts : List (List Char)} (hne : parts ≠ [])
    (h : ∀ part ∈ parts, part ≠ []) : [sep].intercalate parts ≠ [] := by
  obtain ⟨part, parts, rfl⟩ := List.exists_cons_of_ne_nil hne
  have hpart := h part List.mem_cons_self
  cases parts with
  | nil => rwa [List.intercalate_singleton]
  | cons next parts =>
    rw [List.intercalate_cons_cons, List.append_assoc]
    exact List.append_ne_nil_of_left_ne_nil hpart _

/-- Parts that were joined are split again. -/
theorem splitAt_intercalate (hsep : p sep = true)
    {parts : List (List Char)} (hne : parts ≠ [])
    (h : ∀ part ∈ parts, ∀ c ∈ part, p c = false) :
    splitAt p ([sep].intercalate parts) = parts := by
  induction parts with
  | nil => exact absurd rfl hne
  | cons part parts ih =>
    obtain ⟨hpart, hparts⟩ := List.forall_mem_cons.1 h
    cases parts with
    | nil => rw [List.intercalate_singleton, splitAt_of_none hpart]
    | cons next parts =>
      rw [List.intercalate_cons_cons, List.append_assoc,
        List.singleton_append, splitAt_append hsep hpart,
        ih (List.cons_ne_nil _ _) hparts]

/-- Of parts that were joined those that are more than blanks are left,
trimmed. -/
theorem pieces_intercalate (hsep : p sep = true)
    {parts : List (List Char)}
    (h : ∀ part ∈ parts, ∀ c ∈ part, p c = false) :
    pieces p ([sep].intercalate parts)
      = (parts.map trim).filter fun part => !part.isEmpty := by
  by_cases hne : parts = []
  · subst hne
    rfl
  · rw [pieces, splitAt_intercalate hsep hne h]

/-- Plain parts that are not empty are left as they are. -/
theorem pieces_plain (hsep : p sep = true) {parts : List (List Char)}
    (h : ∀ part ∈ parts, part ≠ [] ∧ ∀ c ∈ part, IsPlain c ∧ p c = false) :
    pieces p ([sep].intercalate parts) = parts := by
  have htrim : parts.map trim = parts := by
    refine (List.map_congr_left fun part hpart => ?_).trans (List.map_id _)
    exact trim_of_plain fun c hc => ((h part hpart).2 c hc).1
  rw [pieces_intercalate hsep fun part hpart c hc => ((h part hpart).2 c hc).2,
    htrim, List.filter_eq_self]
  intro part hpart
  rw [List.isEmpty_eq_false_iff.2 (h part hpart).1]
  rfl

/-- The items of a list of plain parts. -/
theorem items_joined {parts : List (List Char)}
    (h : ∀ part ∈ parts, part ≠ [] ∧ ∀ c ∈ part, IsPlain c ∧ c ≠ ',') :
    items (String.ofList ([','].intercalate parts)) = parts := by
  rw [items, String.toList_ofList, pieces_plain rfl]
  intro part hpart
  refine ⟨(h part hpart).1, fun c hc => ?_⟩
  obtain ⟨hplain, hcomma⟩ := (h part hpart).2 c hc
  exact ⟨hplain, beq_eq_false_iff_ne.2 hcomma⟩

end FilterValue

-- ============================================================== filters

/-- A filter of paths and flags looks at nothing but flags in an extent. -/
theorem ExtentFilter.accepts_of_flags (paths : PathFilter)
    (flags : List FlagMatch) (e : Extent) :
    ({ paths, flags } : ExtentFilter).accepts e
      = (flags.isEmpty || flags.any (·.accepts e.flags)) := by
  have hlogical :
      ({ paths, flags } : ExtentFilter).acceptsLogical e = true := by
    unfold acceptsLogical
    split <;> rfl
  rw [accepts, hlogical]
  rfl

/-- A single term is added to the filter that asks for nothing. -/
theorem InodeFilter.read_eq_addTerm {zone : Calendar.Zone} {s : Summary}
    {text : String} {term : FilterTerm}
    (h : FilterTerm.read text = .ok [term]) :
    InodeFilter.read zone s text = ({} : InodeFilter).addTerm zone s term := by
  rw [InodeFilter.read, h]
  show (InodeFilter.addTerm zone s {} term >>= pure) = _
  exact bind_pure _

/-- Where no term is for inodes only, what is asked of extents is what is
asked of the extents of inodes. -/
theorem ExtentFilter.read_eq {zone : Calendar.Zone} {s : Summary}
    {text : String} {terms : List FilterTerm}
    (h : FilterTerm.read text = .ok terms)
    (hshared : ∀ term ∈ terms,
      (FilterField.ofKey? term.key).any (·.isInodesOnly) = false) :
    ExtentFilter.read zone s text
      = (InodeFilter.read zone s text).map (·.extent) := by
  have hfold : ∀ filter : InodeFilter, terms.foldlM (addTerm zone s) filter
      = terms.foldlM (InodeFilter.addTerm zone s) filter := by
    intro filter
    clear h
    induction terms generalizing filter with
    | nil => rfl
    | cons term terms ih =>
      obtain ⟨hterm, hterms⟩ := List.forall_mem_cons.1 hshared
      rw [List.foldlM_cons, List.foldlM_cons, addTerm, hterm,
        if_neg Bool.false_ne_true]
      exact congrArg _ (funext (ih hterms))
  rw [ExtentFilter.read, InodeFilter.read, h]
  show (terms.foldlM (addTerm zone s) {} >>= fun filter => pure filter.extent)
    = (terms.foldlM (InodeFilter.addTerm zone s) {}).map (·.extent)
  rw [hfold]
  cases terms.foldlM (InodeFilter.addTerm zone s) {} with
  | error e => rfl
  | ok filter => rfl

/-- A key that is recognized stands in the table of keys; the case analyses
over keys run over that table. -/
theorem FilterField.mem_keys {key : String} {field : FilterField}
    (h : FilterField.ofKey? key = some field) :
    (key, field) ∈ FilterField.keys := by
  obtain ⟨before, after, hkeys, -⟩ := List.lookup_eq_some_iff.1 h
  rw [hkeys]
  exact List.mem_append_right _ List.mem_cons_self

/-- Keys are of small letters. -/
theorem FilterField.key_plain {key : String} {field : FilterField}
    (h : FilterField.ofKey? key = some field) :
    (∀ c ∈ key.toList, c.isAlphanum = true) ∧ asciiLower key = key := by
  have hkeys : ∀ entry ∈ FilterField.keys,
      entry.1.toList.all Char.isAlphanum = true ∧
        asciiLower entry.1 = entry.1 := by
    decide +kernel
  obtain ⟨hletters, hlower⟩ := hkeys (key, field) (FilterField.mem_keys h)
  exact ⟨List.all_eq_true.1 hletters, hlower⟩

section OnePlain

variable {key : String} {field : FilterField} {value : List Char}
  (zone : Calendar.Zone)

/-- A single plain value is added to the dimension of its key. -/
theorem InodeFilter.read_plain (s : Summary)
    (hfield : FilterField.ofKey? key = some field) (hne : value ≠ [])
    (hplain : ∀ c ∈ value, IsPlain c) :
    InodeFilter.read zone s (FilterTerm.oneTerm key value)
      = ({} : InodeFilter).addValue zone s (String.ofList value) field := by
  obtain ⟨hletters, hlower⟩ := FilterField.key_plain hfield
  have hterm := FilterTerm.read_plain hletters hplain
  rw [hlower] at hterm
  have hfull : (String.ofList value).isEmpty = false := by
    simpa using hne
  rw [InodeFilter.read_eq_addTerm hterm, InodeFilter.addTerm]
  simp only [hfull, hfield, Bool.false_eq_true, if_false]

/-- A term the two kinds of query share is read alike by both: an extent query
runs the inode reader and keeps the half about extents. -/
theorem ExtentFilter.read_plain (s : Summary)
    (hfield : FilterField.ofKey? key = some field)
    (hshared : field.isInodesOnly = false)
    (hplain : ∀ c ∈ value, IsPlain c) :
    ExtentFilter.read zone s (FilterTerm.oneTerm key value)
      = (InodeFilter.read zone s (FilterTerm.oneTerm key value)).map
          (·.extent) := by
  obtain ⟨hletters, hlower⟩ := FilterField.key_plain hfield
  refine ExtentFilter.read_eq (FilterTerm.read_plain hletters hplain) ?_
  intro term hmem
  rw [List.mem_singleton.1 hmem, hlower, hfield]
  exact hshared

end OnePlain

end DiskAtlas
