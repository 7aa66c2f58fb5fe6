/-
What holds for all queries of one user: which kinds of extent are to be
seen at all, and how many rows make a page.
-/
import DiskAtlas.Kind

namespace DiskAtlas

/-- Settings that all queries share. -/
structure QueryContext where
  visible : KindSet := .all
  pageSize : Nat := 4096
  /-- A page holds at least one row. -/
  pageSize_pos : 0 < pageSize := by decide
  deriving Repr, DecidableEq

namespace QueryContext

def showKind (c : QueryContext) (kind : ExtentKind) (shown : Bool) :
    QueryContext :=
  { c with visible := c.visible.set kind shown }

/-- Asks for pages of some size; a page of no rows has one. -/
def withPageSize (c : QueryContext) (rows : Nat) : QueryContext :=
  { c with pageSize := max rows 1, pageSize_pos := by omega }

def isVisible (c : QueryContext) (kind : ExtentKind) : Bool :=
  c.visible.has kind

def hidesKinds (c : QueryContext) : Bool := c.visible != .all

end QueryContext

end DiskAtlas
