/-
Records lose nothing. The fields of a record are written and read in one
order, so the codec of a record is lawful if those of its fields are, and a
whole state is read as it was written (`decode_encode`): its tables and what
was computed, whatever they hold, if they take no more bytes than a word
can count.

A field that is added to a record is one more line in the lemma of that
record. Nothing else notices it.
-/
import DiskAtlas.Proofs.Snapshot.Codec
import DiskAtlas.Snapshot.Layout

namespace DiskAtlas.Snapshot

open Overview

namespace Codec

-- ============================================================= summaries

/-- The proofs of this module have one shape. To take a record, its fields are
taken in the order in which they were written, each of them short enough
because the whole record is; and the first field takes a byte. -/
theorem summary_lawful : summary.Lawful where
  takes s h := by
    simp only [summary, List.length_append] at h
    simp only [summary, List.append_assoc]
    refine (text_lawful.takes s.path (by omega)).bind ?_
    refine (takes_word s.blockSize).bind ?_
    refine (takes_word s.fragSize).bind ?_
    refine (takes_word s.totalBytes).bind ?_
    refine (takes_word s.freeBytes).bind ?_
    refine (takes_word s.availBytes).bind ?_
    refine (takes_word s.totalInodes).bind ?_
    refine (takes_word s.freeInodes).bind ?_
    refine (takes_word s.availInodes).bind ?_
    refine (takes_word s.maxNameLength).bind ?_
    refine (signed_lawful.takes s.timestamp (by omega)).bind ?_
    refine (bool_lawful.takes s.finished (by omega)).bind ?_
    refine (char_lawful.takes s.separator (by omega)).bind ?_
    exact (text_lawful.takes s.fsType (by omega)).last (.pure s)
  pos s := by
    have := text_lawful.pos s.path
    simp only [summary, List.length_append]
    omega

-- ================================================================ inodes

theorem times_lawful : times.Lawful where
  takes t h := by
    have hoption := option_lawful signed_lawful
    simp only [times, List.length_append] at h
    simp only [times, List.append_assoc]
    refine (hoption.takes t.atime (by omega)).bind ?_
    refine (hoption.takes t.crtime (by omega)).bind ?_
    refine (hoption.takes t.ctime (by omega)).bind ?_
    exact (hoption.takes t.mtime (by omega)).last (.pure t)
  pos t := by
    have := (option_lawful signed_lawful).pos t.atime
    simp only [times, List.length_append]
    omega

/-- A kind is written as its index, and an index that belongs to none is
refused. -/
theorem inodeKind_lawful : inodeKind.Lawful :=
  choice_lawful InodeKind.ofIndex?_index fun kind =>
    Nat.lt_trans kind.index_lt (by decide)

theorem extentKind_lawful : extentKind.Lawful :=
  choice_lawful ExtentKind.ofIndex?_index fun kind =>
    Nat.lt_trans kind.index_lt (by decide)

theorem inode_lawful : inode.Lawful where
  takes i h := by
    simp only [inode, List.length_append] at h
    simp only [inode, List.append_assoc]
    refine (signed_lawful.takes i.ino (by omega)).bind ?_
    refine (inodeKind_lawful.takes i.kind (by omega)).bind ?_
    refine ((option_lawful word_lawful).takes i.size (by omega)).bind ?_
    exact (times_lawful.takes i.times (by omega)).last (.pure i)
  pos i := by
    have := signed_lawful.pos i.ino
    simp only [inode, List.length_append]
    omega

-- =============================================================== extents

/-- An extent is written with all of its flags, also those that have no name.
-/
theorem extent_lawful : extent.Lawful where
  takes e h := by
    simp only [extent, List.length_append] at h
    simp only [extent, List.append_assoc]
    refine (signed_lawful.takes e.ino (by omega)).bind ?_
    refine (takes_word e.physical).bind ?_
    refine ((option_lawful word_lawful).takes e.logical (by omega)).bind ?_
    refine (takes_word e.length).bind ?_
    refine (half_lawful.takes e.flags.bits (by omega)).bind ?_
    exact (extentKind_lawful.takes e.kind (by omega)).last (.pure e)
  pos e := by
    have := signed_lawful.pos e.ino
    simp only [extent, List.length_append]
    omega

-- ============================================================== computed

/-- The travel of an inode is written by its bits, so it is the same number
again. -/
theorem stats_lawful : stats.Lawful where
  takes s h := by
    simp only [stats, List.length_append] at h
    refine (takes_word s.extents).bind ?_
    exact (floatBits_lawful.takes s.travelBits (by omega)).last (.pure s)
  pos s := by
    have := word_lawful.pos s.extents
    simp only [stats, List.length_append]
    omega

theorem cell_lawful : cell.Lawful where
  takes c h :=
    ((vector_lawful word_lawful (by decide)).takes c.counts h).last (.pure c)
  pos c := (vector_lawful word_lawful (by decide)).pos c.counts

-- ================================================================ tables

/-- The tables: the facts, the inodes, the paths, the entries of directories,
and the extents in the order of their numbers. No index is written; a store
that is opened builds its own. -/
theorem tables_lawful : tables.Lawful where
  takes t h := by
    have hinodes := map_lawful signed_lawful inode_lawful
    have hpaths := map_lawful text_lawful signed_lawful
    have hdirectories := map_lawful signed_lawful hpaths
    simp only [tables, List.length_append] at h
    simp only [tables, List.append_assoc]
    refine ((option_lawful summary_lawful).takes t.summary (by omega)).bind ?_
    refine (hinodes.takes t.inodes (by omega)).bind ?_
    refine (hpaths.takes t.paths (by omega)).bind ?_
    refine (hdirectories.takes t.directories (by omega)).bind ?_
    exact ((array_lawful extent_lawful).takes t.extents (by omega)).last
      (.pure t)
  pos t := by
    have := (option_lawful summary_lawful).pos t.summary
    simp only [tables, List.length_append]
    omega

/-- What was computed is kept beside the tables and is read back with them. -/
theorem calculated_lawful : calculated.Lawful where
  takes c h := by
    have hstats := map_lawful signed_lawful stats_lawful
    have hcells := map_lawful word_lawful (array_lawful cell_lawful)
    simp only [calculated, List.length_append] at h
    refine (hstats.takes c.inodeStats (by omega)).bind ?_
    exact (hcells.takes c.overviews (by omega)).last (.pure c)
  pos c := by
    have := (map_lawful signed_lawful stats_lawful).pos c.inodeStats
    simp only [calculated, List.length_append]
    omega

end Codec

-- ================================================================ states

/-- A state is read as it was written, whenever it was saved. -/
theorem decode_encode {savedAt : Int64} {state : Persisted}
    (h : (encode savedAt state).length < 2 ^ 64) :
    decode (encode savedAt state) = some state := by
  have htakes : Takes readState (encode savedAt state) state := by
    simp only [encode, List.length_append] at h
    simp only [encode, List.append_assoc]
    refine (Codec.signed_lawful.takes savedAt (by omega)).bind ?_
    refine (Codec.tables_lawful.takes state.tables (by omega)).bind ?_
    exact (Codec.calculated_lawful.takes state.calculated (by omega)).last
      (.pure state)
  rw [decode, htakes.run_eq]
  rfl

end DiskAtlas.Snapshot
