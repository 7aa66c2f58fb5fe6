/-
The answers to queries, row by row or page by page. A cursor holds the
candidates that were not looked at yet and the rows that were found but
not handed out; rows are found a page at a time. Both ways of asking take
rows from the same place, so they can be mixed without losing one.

Finding inode rows computes statistics, which are kept in the store; so
the store goes in and comes out again.
-/
import DiskAtlas.Query.Plan

namespace DiskAtlas

/-- An extent of the answer, and a path of its owner. -/
structure ExtentRow where
  extent : Extent
  path : Option String
  deriving Repr, DecidableEq

/-- An inode of the answer, with every path that names it. -/
structure InodeRow where
  inode : Inode
  paths : List String
  stats : InodeStats
  deriving Repr, DecidableEq

namespace Query

/-- A way to rows that is partly gone: `γ` are candidates and `α` rows. -/
structure Cursor (γ α : Type) where
  pageSize : Nat
  pending : List γ
  found : List α := []
  deriving Repr, DecidableEq

namespace Cursor

variable {γ α σ : Type}

/-- Looks at candidates until `limit` rows are found. -/
def search (look : γ → σ → Option α × σ) :
    (limit : Nat) → List γ → σ → List α × List γ × σ
  | 0, pending, s => ([], pending, s)
  | _, [], s => ([], [], s)
  | limit + 1, c :: rest, s =>
    match look c s with
    | (none, s) => search look (limit + 1) rest s
    | (some row, s) =>
      let (rows, pending, s) := search look limit rest s
      (row :: rows, pending, s)

/-- The cursor with at least one row found, unless there is none left. -/
def fill (look : γ → σ → Option α × σ) (c : Cursor γ α) (s : σ) :
    Cursor γ α × σ :=
  if c.found.isEmpty then
    let (found, pending, s) := search look c.pageSize c.pending s
    ({ c with pending, found }, s)
  else (c, s)

def next (look : γ → σ → Option α × σ) (c : Cursor γ α) (s : σ) :
    Option α × Cursor γ α × σ :=
  let (c, s) := c.fill look s
  (c.found.head?, { c with found := c.found.tail }, s)

/-- The rows found and not handed out, or else the next page. -/
def nextPage (look : γ → σ → Option α × σ) (c : Cursor γ α) (s : σ) :
    Option (List α) × Cursor γ α × σ :=
  let (c, s) := c.fill look s
  (if c.found.isEmpty then none else some c.found,
    { c with found := [] }, s)

/-- The next `n` rows, or as many as there are. -/
def take (look : γ → σ → Option α × σ) :
    (n : Nat) → Cursor γ α → σ → List α × Cursor γ α × σ
  | 0, c, s => ([], c, s)
  | n + 1, c, s =>
    match c.next look s with
    | (none, c, s) => ([], c, s)
    | (some row, c, s) =>
      let (rows, c, s) := take look n c s
      (row :: rows, c, s)

/-- The next `n` pages, or as many as there are. -/
def takePages (look : γ → σ → Option α × σ) :
    (n : Nat) → Cursor γ α → σ → List (List α) × Cursor γ α × σ
  | 0, c, s => ([], c, s)
  | n + 1, c, s =>
    match c.nextPage look s with
    | (none, c, s) => ([], c, s)
    | (some page, c, s) =>
      let (pages, c, s) := takePages look n c s
      (page :: pages, c, s)

/-- A bound on the rows, and so the pages, that are left. -/
def bound (c : Cursor γ α) : Nat := c.found.length + c.pending.length

end Cursor

-- ============================================================= extents

variable {β : Type}

/-- The path that is shown for an extent: the first path of the owner that
is asked for, or else its first path. -/
def rowPath (s : Store β) (paths : PathFilter) (ino : Int64) :
    Option String :=
  let all := s.pathsOf ino
  (all.find? paths.accepts).orElse fun _ => all.head?

/-- Checks a candidate of an extent query. -/
def lookExtent (context : QueryContext) (filter : ExtentFilter)
    (inodes : Option (List Int64)) (id : Nat) (s : Store β) :
    Option ExtentRow × Store β :=
  match s.tables.extents[id]? with
  | none => (none, s)
  | some e =>
    if acceptsExtent context filter inodes e then
      (some ⟨e, rowPath s filter.paths e.ino⟩, s)
    else (none, s)

/-- An extent query that is being answered. -/
structure ExtentRows where
  context : QueryContext
  filter : ExtentFilter
  inodes : Option (List Int64)
  cursor : Cursor Nat ExtentRow

/-- Begins to answer an extent query. Where nothing is to be seen the
answer is empty, whatever the state of the store. -/
def extents (s : Store β) (context : QueryContext)
    (filter : ExtentFilter) : Except Error ExtentRows :=
  if context.visible.isEmpty then
    .ok ⟨context, filter, none, { pageSize := context.pageSize, pending := [] }⟩
  else do
    let summary ← s.ensureReady
    checkPhysical summary filter
    let inodes := pathInodes s filter.paths
    let pending := candidates s filter inodes
    return ⟨context, filter, inodes, { pageSize := context.pageSize, pending }⟩

def ExtentRows.look (rows : ExtentRows) :
    Nat → Store β → Option ExtentRow × Store β :=
  lookExtent rows.context rows.filter rows.inodes

-- ============================================================== inodes

/-- Checks a candidate of an inode query. Statistics are computed only for
inodes whose rows satisfy the filter. -/
def lookInode (filter : InodeFilter) (ino : Int64) (s : Store β) :
    Option InodeRow × Store β :=
  match s.inode ino with
  | none => (none, s)
  | some inode =>
    if filter.acceptsRow inode then
      let (stats, s) := s.statsFor inode
      if filter.acceptsStats stats then
        (some ⟨{ inode with ino }, s.pathsOf ino, stats⟩, s)
      else (none, s)
    else (none, s)

/-- An inode query that is being answered. -/
structure InodeRows where
  filter : InodeFilter
  cursor : Cursor Int64 InodeRow

def inodes (s : Store β) (context : QueryContext) (filter : InodeFilter) :
    Except Error InodeRows :=
  if context.visible.isEmpty then
    .ok ⟨filter, { pageSize := context.pageSize, pending := [] }⟩
  else do
    let summary ← s.ensureReady
    checkPhysical summary filter.extent
    let pending := inodeCandidates s context filter
    return ⟨filter, { pageSize := context.pageSize, pending }⟩

def InodeRows.look (rows : InodeRows) :
    Int64 → Store β → Option InodeRow × Store β :=
  lookInode rows.filter

end Query

end DiskAtlas
