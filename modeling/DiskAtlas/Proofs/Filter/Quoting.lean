/-
Reading a filter text undoes its writing. A value is written in quotes, or
without them and with every blank escaped; either way quotes and
backslashes are escaped, and what is escaped is read as it was
(`lex_escape`). A term is read up to the blanks behind it whatever its
value holds (`lex_text`), so no term has a say in how another one is
read, and from terms with blanks between them just these terms are read
(`Line.read_text`).
-/
import DiskAtlas.Filter.Term

namespace DiskAtlas

open Text

-- ============================================================= trimming

namespace Text

variable {cs : List Char}

theorem trimStart_eq_self (h : ∀ c, cs.head? = some c → isBlank c = false) :
    trimStart cs = cs := by
  cases cs with
  | nil => rfl
  | cons c cs =>
    rw [trimStart, List.dropWhile_cons_of_neg (by simp [h c rfl])]

/-- A text without blanks at its ends is not trimmed. -/
theorem trim_eq_self (hfirst : ∀ c, cs.head? = some c → isBlank c = false)
    (hlast : ∀ c, cs.getLast? = some c → isBlank c = false) :
    trim cs = cs := by
  have hreverse : trimStart cs.reverse = cs.reverse :=
    trimStart_eq_self fun c hc => hlast c (List.head?_reverse ▸ hc)
  rw [trim, trimStart_eq_self hfirst]
  show (trimStart cs.reverse).reverse = cs
  rw [hreverse, List.reverse_reverse]

end Text

namespace FilterTerm

-- ============================================================== writing

/-- Quotes and backslashes have a meaning of their own. -/
def isMark (c : Char) : Bool := c == '"' || c == '\\'

/-- A backslash in front of every character that needs one. -/
def escape (needs : Char → Bool) (cs : List Char) : List Char :=
  cs.flatMap fun c => if needs c then ['\\', c] else [c]

/-- Some blanks, or none. -/
abbrev Blanks := { cs : List Char // ∀ c ∈ cs, isBlank c = true }

/-- A key and a value, and whether the value is put in quotes. -/
structure Written where
  key : String
  value : String
  quoted : Bool
  key_plain : ∀ c ∈ key.toList,
    c ≠ ':' ∧ isMark c = false ∧ isBlank c = false
  value_first : ∀ c, value.toList.head? = some c → isBlank c = false
  value_last : ∀ c, value.toList.getLast? = some c → isBlank c = false

namespace Written

/-- The value in quotes, or with its blanks escaped. -/
def valueText (w : Written) : List Char :=
  if w.quoted then '"' :: escape isMark w.value.toList ++ ['"']
  else escape (fun c => isMark c || isBlank c) w.value.toList

def text (w : Written) : List Char := w.key.toList ++ ':' :: w.valueText

end Written

/-- Terms, each behind some blanks. -/
def textOf (terms : List (Blanks × Written)) : List Char :=
  terms.flatMap fun t => t.1.val ++ t.2.text

/-- Terms with blanks between them and perhaps around them. -/
structure Line where
  terms : List (Blanks × Written)
  trail : Blanks
  apart : ∀ t ∈ terms.tail, t.1.val ≠ []

def Line.text (line : Line) : String :=
  String.ofList (textOf line.terms ++ line.trail.val)

-- ================================================================ bytes

/-- How many bytes some characters take. -/
def byteCount (cs : List Char) : Nat := (String.ofList cs).utf8ByteSize

@[simp] theorem byteCount_nil : byteCount [] = 0 := rfl

@[simp] theorem byteCount_cons (c : Char) (cs : List Char) :
    byteCount (c :: cs) = c.utf8Size + byteCount cs := by
  rw [byteCount, String.ofList_cons, String.utf8ByteSize_append,
    String.utf8ByteSize_singleton, byteCount]

@[simp] theorem byteCount_append (cs ds : List Char) :
    byteCount (cs ++ ds) = byteCount cs + byteCount ds := by
  rw [byteCount, String.ofList_append, String.utf8ByteSize_append]
  rfl

-- ========================================================= one character

variable {position : Nat} {openQuote : Option Nat} {c : Char}
  {cs rest : List Char}

theorem isMark_eq_false_iff : isMark c = false ↔ c ≠ '"' ∧ c ≠ '\\' := by
  rw [isMark, Bool.or_eq_false_iff, beq_eq_false_iff_ne,
    beq_eq_false_iff_ne]

/-- A blank is no mark: an unquoted blank ends a term and is never undone. -/
theorem isMark_of_isBlank (h : isBlank c = true) : isMark c = false := by
  rw [isMark_eq_false_iff]
  constructor
  · rintro rfl
    exact absurd h (by decide)
  · rintro rfl
    exact absurd h (by decide)

/-- What has no meaning of its own ends the term or belongs to it. -/
theorem lex_cons_of_not_isMark (h : isMark c = false) :
    lex position openQuote (c :: cs)
      = if isBlank c && openQuote.isNone then ⟨[], none, c :: cs, position⟩
        else (lex (position + c.utf8Size) openQuote cs).push c := by
  obtain ⟨hquote, hslash⟩ := isMark_eq_false_iff.1 h
  rw [lex, if_neg hquote]
  · exact fun h _ => hslash h
  · exact fun _ _ h _ => hslash h

/-- Other characters are read as they are, blanks in quotes only. -/
theorem lex_cons_plain (hmark : isMark c = false)
    (hblank : isBlank c = false ∨ openQuote.isSome = true) :
    lex position openQuote (c :: cs)
      = (lex (position + c.utf8Size) openQuote cs).push c := by
  have hkept : (isBlank c && openQuote.isNone) = false := by
    rcases hblank with hblank | hopen
    · rw [hblank, Bool.false_and]
    · rw [Option.isNone_eq_false_iff.2 hopen, Bool.and_false]
  rw [lex_cons_of_not_isMark hmark, hkept, if_neg Bool.false_ne_true]

/-- An escaped character is read as it is. -/
theorem lex_escaped : lex position openQuote ('\\' :: c :: cs)
    = (lex (position + 1 + c.utf8Size) openQuote cs).push c := by
  rw [lex]

/-- A quote opens or closes quotes and is not read. -/
theorem lex_quote : lex position openQuote ('"' :: cs)
    = lex (position + 1) (if openQuote.isSome then none else some position)
        cs := by
  rw [lex, if_pos rfl]
  · exact fun h _ => absurd h (by decide)
  · exact fun _ _ h _ => absurd h (by decide)

/-- A term ends with the text, or at a blank. -/
def Ends (rest : List Char) : Prop :=
  ∀ c, rest.head? = some c → isBlank c = true

/-- At the end of a term the lexer stops where it is, whatever follows. -/
theorem lex_ends (h : Ends rest) :
    lex position none rest = ⟨[], none, rest, position⟩ := by
  cases rest with
  | nil => rfl
  | cons c cs =>
    have hblank := h c rfl
    rw [lex_cons_of_not_isMark (isMark_of_isBlank hblank), hblank]
    rfl

-- ======================================================= many characters

/-- The same with some more characters in front. -/
def Lexed.prepend (cs : List Char) (l : Lexed) : Lexed :=
  { l with text := cs ++ l.text }

/-- Pushing a letter onto what a run of letters was put in front of is one
longer run; the inductions below close with it. -/
theorem Lexed.push_prepend (l : Lexed) (c : Char) (cs : List Char) :
    (l.prepend cs).push c = l.prepend (c :: cs) := rfl

/-- An escaped letter is a byte longer, since its backslash is one byte in
UTF-8. Positions in messages count bytes of what was typed and not of what was
meant. -/
theorem byteCount_escape_cons {needs : Char → Bool} (c : Char)
    (cs : List Char) : byteCount (escape needs (c :: cs))
      = (if needs c then 1 else 0) + c.utf8Size
        + byteCount (escape needs cs) := by
  have hslash : '\\'.utf8Size = 1 := rfl
  rw [escape, List.flatMap_cons, ← escape, byteCount_append]
  split
  · simp only [byteCount_cons, byteCount_nil, hslash]
    omega
  · simp only [byteCount_cons, byteCount_nil]
    omega

/-- Escaping is undone, whatever comes behind. -/
theorem lex_escape {needs : Char → Bool}
    (hneeds : ∀ c ∈ cs, needs c = false →
      isMark c = false ∧ (isBlank c = false ∨ openQuote.isSome = true)) :
    lex position openQuote (escape needs cs ++ rest)
      = (lex (position + byteCount (escape needs cs)) openQuote rest).prepend
          cs := by
  induction cs generalizing position with
  | nil => rfl
  | cons c cs ih =>
    have hrest := fun d hd => hneeds d (List.mem_cons_of_mem c hd)
    rw [byteCount_escape_cons, ← Lexed.push_prepend, ← Nat.add_assoc,
      ← Nat.add_assoc, ← ih hrest, escape, List.flatMap_cons, ← escape]
    cases hc : needs c with
    | true => exact lex_escaped
    | false =>
      obtain ⟨hmark, hblank⟩ := hneeds c List.mem_cons_self hc
      exact lex_cons_plain hmark hblank

/-- Characters that need no escape are read as they are. -/
theorem lex_plain (hplain : ∀ c ∈ cs, isMark c = false ∧ isBlank c = false) :
    lex position openQuote (cs ++ rest)
      = (lex (position + byteCount cs) openQuote rest).prepend cs := by
  have hsame : escape (fun _ => false) cs = cs :=
    List.flatMap_singleton' cs
  have h : lex position openQuote (escape (fun _ => false) cs ++ rest) = _ :=
    lex_escape fun c hc _ => ⟨(hplain c hc).1, Or.inl (hplain c hc).2⟩
  rwa [hsame] at h

/-- A text in quotes is read as it was, its blanks too. -/
theorem lex_quoted (h : Ends rest) :
    lex position none ('"' :: escape isMark cs ++ '"' :: rest)
      = ⟨cs, none, rest,
          position + byteCount ('"' :: escape isMark cs ++ ['"'])⟩ := by
  -- the quotes are closed before the blank that ends the term
  have hquote : '"'.utf8Size = 1 := rfl
  rw [List.cons_append, List.cons_append, lex_quote, lex_escape, lex_quote]
  · show (lex _ none rest).prepend _ = _
    rw [lex_ends h, byteCount_cons, byteCount_append, byteCount_cons,
      byteCount_nil, hquote, Lexed.prepend, List.append_nil]
    congr 1
    dsimp only
    omega
  · exact fun c _ hc => ⟨hc, Or.inr rfl⟩

/-- What is read is split at its first colon. -/
theorem ofText_keyed {key : String}
    (hkey : ∀ c ∈ key.toList, c ≠ ':' ∧ isBlank c = false) :
    ofText position (key.toList ++ ':' :: cs)
      = .ok ⟨asciiLower key, String.ofList (trim cs), position⟩ := by
  have hcolon : ∀ c ∈ key.toList, (c != ':') = true := fun c hc =>
    bne_iff_ne.2 (hkey c hc).1
  have hsame : trim key.toList = key.toList := by
    apply trim_eq_self
    · exact fun c hc => (hkey c (List.mem_of_head? hc)).2
    · exact fun c hc => (hkey c (List.mem_of_getLast? hc)).2
  rw [ofText, List.dropWhile_append_of_pos hcolon,
    List.takeWhile_append_of_pos hcolon]
  simp only [List.dropWhile_cons, List.takeWhile_cons, bne_self_eq_false,
    Bool.false_eq_true, if_false, List.append_nil, hsame,
    String.ofList_toList]

/-- A term is read by itself, and what comes behind it by itself. -/
theorem readFrom_of_lex {text : List Char} {next : Nat} {term : FilterTerm}
    (hc : isBlank c = false)
    (hlex : lex position none (c :: cs) = ⟨text, none, rest, next⟩)
    (hterm : ofText position text = .ok term) :
    readFrom position (c :: cs) = (readFrom next rest).map (term :: ·) := by
  rw [readFrom, dif_neg (by simp [hc])]
  simp only [hlex, hterm]
  cases readFrom next rest with
  | error e => rfl
  | ok terms => rfl

-- ============================================================== one term

namespace Written

variable {w : Written}

/-- A value is read up to the blank behind it. -/
theorem lex_valueText (h : Ends rest) :
    lex position none (w.valueText ++ rest)
      = ⟨w.value.toList, none, rest,
          position + byteCount w.valueText⟩ := by
  rw [valueText]
  split
  · rw [List.append_assoc, List.singleton_append, lex_quoted h]
  · rw [lex_escape, lex_ends h, Lexed.prepend, List.append_nil]
    intro c _ hc
    rw [Bool.or_eq_false_iff] at hc
    exact ⟨hc.1, Or.inl hc.2⟩

/-- A term is read up to the blank behind it. -/
theorem lex_text (h : Ends rest) :
    lex position none (w.text ++ rest)
      = ⟨w.key.toList ++ ':' :: w.value.toList, none, rest,
          position + byteCount w.text⟩ := by
  have hplain : ∀ c ∈ w.key.toList ++ [':'],
      isMark c = false ∧ isBlank c = false := by
    intro c hc
    rcases List.mem_append.1 hc with hc | hc
    · exact (w.key_plain c hc).2
    · rw [List.mem_singleton.1 hc]
      decide
  have htext : w.text = (w.key.toList ++ [':']) ++ w.valueText := by
    rw [text, List.append_assoc, List.singleton_append]
  rw [htext, List.append_assoc, lex_plain hplain, lex_valueText h,
    byteCount_append (_ ++ _), Lexed.prepend, List.append_assoc,
    List.singleton_append, Nat.add_assoc]

/-- The key of what is read ends at the first colon. -/
theorem ofText_text :
    ofText position (w.key.toList ++ ':' :: w.value.toList)
      = .ok ⟨asciiLower w.key, w.value, position⟩ := by
  have hkey : ∀ c ∈ w.key.toList, c ≠ ':' ∧ isBlank c = false := fun c hc =>
    ⟨(w.key_plain c hc).1, (w.key_plain c hc).2.2⟩
  rw [ofText_keyed hkey, trim_eq_self w.value_first w.value_last,
    String.ofList_toList]

/-- A term begins with its key, or with the colon if that is empty. -/
theorem text_begins : ∃ c cs, w.text = c :: cs ∧ isBlank c = false := by
  rw [text]
  cases hkey : w.key.toList with
  | nil => exact ⟨':', w.valueText, rfl, by decide⟩
  | cons c cs =>
    refine ⟨c, cs ++ ':' :: w.valueText, rfl, ?_⟩
    exact (w.key_plain c (hkey ▸ List.mem_cons_self)).2.2

end Written

/-- Blanks in front of a term are passed over. -/
theorem readFrom_blanks (blanks : Blanks) :
    readFrom position (blanks.val ++ cs)
      = readFrom (position + byteCount blanks.val) cs := by
  obtain ⟨bs, hbs⟩ := blanks
  induction bs generalizing position with
  | nil => rfl
  | cons b bs ih =>
    show readFrom position (b :: (bs ++ cs)) = _
    rw [readFrom, dif_pos (hbs b List.mem_cons_self),
      ih fun c hc => hbs c (List.mem_cons_of_mem _ hc), byteCount_cons,
      Nat.add_assoc]

/-- A term in front of a blank is read by itself. -/
theorem readFrom_text {w : Written} (h : Ends rest) :
    readFrom position (w.text ++ rest)
      = (readFrom (position + byteCount w.text) rest).map
          (⟨asciiLower w.key, w.value, position⟩ :: ·) := by
  obtain ⟨c, cs, htext, hc⟩ := w.text_begins
  have hlex : lex position none (w.text ++ rest) = _ := w.lex_text h
  rw [htext, List.cons_append] at hlex ⊢
  exact readFrom_of_lex hc hlex w.ofText_text

-- ============================================================= all terms

/-- What is read of some terms: each begins behind the terms before it and
its own blanks. -/
def readAs (position : Nat) (terms : List (Blanks × Written)) :
    List FilterTerm :=
  terms.mapIdx fun i t => ⟨asciiLower t.2.key, t.2.value,
    position + byteCount (textOf (terms.take i) ++ t.1.val)⟩

theorem textOf_nil : textOf [] = [] := rfl

theorem textOf_cons (blanks : Blanks) (w : Written)
    (terms : List (Blanks × Written)) :
    textOf ((blanks, w) :: terms) = blanks.val ++ (w.text ++ textOf terms) := by
  rw [textOf, List.flatMap_cons, List.append_assoc]
  rfl

/-- Each term of a line stands at the byte where it was typed: the blanks in
front of it and the terms before it, quotes and backslashes included. -/
theorem readAs_cons (blanks : Blanks) (w : Written)
    (terms : List (Blanks × Written)) :
    readAs position ((blanks, w) :: terms)
      = ⟨asciiLower w.key, w.value, position + byteCount blanks.val⟩
        :: readAs (position + byteCount blanks.val + byteCount w.text)
          terms := by
  rw [readAs, List.mapIdx_cons, readAs]
  simp only [List.take_zero, List.take_succ_cons, textOf_nil, textOf_cons,
    byteCount_append, byteCount_nil, Nat.zero_add, Nat.add_assoc]

/-- Where blanks stand in front of every term, a term before them ends. -/
theorem ends_textOf {terms : List (Blanks × Written)} {trail : Blanks}
    (h : ∀ t ∈ terms, t.1.val ≠ []) : Ends (textOf terms ++ trail.val) := by
  intro c hc
  cases terms with
  | nil => exact trail.2 c (List.mem_of_head? hc)
  | cons t terms =>
    cases hblanks : t.1.val with
    | nil => exact absurd hblanks (h t List.mem_cons_self)
    | cons b bs =>
      rw [textOf, List.flatMap_cons, hblanks] at hc
      obtain rfl : b = c := Option.some.inj hc
      exact t.1.2 b (hblanks ▸ List.mem_cons_self)

/-- Terms with blanks between them are read one after the other. -/
theorem readFrom_textOf {terms : List (Blanks × Written)} {trail : Blanks}
    (h : ∀ t ∈ terms.tail, t.1.val ≠ []) :
    readFrom position (textOf terms ++ trail.val)
      = .ok (readAs position terms) := by
  induction terms generalizing position with
  | nil =>
    have hblanks : readFrom position (trail.val ++ []) = _ :=
      readFrom_blanks trail
    rw [List.append_nil, readFrom] at hblanks
    exact hblanks
  | cons t terms ih =>
    obtain ⟨blanks, w⟩ := t
    -- the next term, if any, has blanks in front of it, which end this one
    have hends : Ends (textOf terms ++ trail.val) := ends_textOf h
    rw [textOf_cons, List.append_assoc, List.append_assoc, readFrom_blanks,
      readFrom_text hends,
      ih fun t ht => h t (List.mem_of_mem_tail ht), readAs_cons]
    rfl

/-- From a line just its terms are read, in order, their keys in small
letters and their values as they were, each with the number of bytes in
front of it. -/
theorem Line.read_text (line : Line) :
    FilterTerm.read line.text = .ok (line.terms.mapIdx fun i t =>
      ⟨asciiLower t.2.key, t.2.value,
        byteCount (textOf (line.terms.take i) ++ t.1.val)⟩) := by
  rw [FilterTerm.read, Line.text, String.toList_ofList,
    readFrom_textOf line.apart]
  simp only [readAs, Nat.zero_add]

/-- A value in quotes, with a quote and a character of two bytes in it,
and behind two blanks one with an escaped blank. -/
def Line.mixed : Line where
  terms :=
    [(⟨[' '], by simp [isBlank, blankRanges]⟩,
      { key := "Path", value := "a \"é\":", quoted := true
        key_plain := by simp [isMark, isBlank, blankRanges]
        value_first := by simp [isBlank, blankRanges]
        value_last := by simp [isBlank, blankRanges] }),
    (⟨[' ', ' '], by simp [isBlank, blankRanges]⟩,
      { key := "key", value := "x y", quoted := false
        key_plain := by simp [isMark, isBlank, blankRanges]
        value_first := by simp [isBlank, blankRanges]
        value_last := by simp [isBlank, blankRanges] })]
  trail := ⟨[], nofun⟩
  apart := by simp

/-- The second term begins behind a character of two bytes. -/
theorem Line.read_mixed :
    Line.mixed.text = " Path:\"a \\\"é\\\":\"  key:x\\ y" ∧
      FilterTerm.read Line.mixed.text
        = .ok [⟨"path", "a \"é\":", 1⟩, ⟨"key", "x y", 19⟩] :=
  ⟨by decide +kernel, (Line.read_text Line.mixed).trans
    (congrArg Except.ok (by decide +kernel))⟩

end FilterTerm
end DiskAtlas
