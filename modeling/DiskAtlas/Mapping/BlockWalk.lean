/-
Reading a file block by block, for file systems that do not tell extents.
The source names the block of the device behind each block of the file;
zero means a hole. Neighbouring blocks are joined into one record as long
as they follow each other on the device and the record has room for more
blocks. When a look-up fails, the walk ends with the error, and the record
that was still growing is not handed out.
-/
import DiskAtlas.Extent
import DiskAtlas.Mapping.Trace

namespace DiskAtlas.Mapping

/-- Something that tells the block size of a file and where its blocks
lie. -/
structure BlockSource (σ : Type) where
  blockSize : σ → Except Error UInt64 × σ
  lookup : UInt64 → σ → Except Error UInt64 × σ

variable {σ : Type}

def blockRecord (size block place : UInt64) : RawExtent :=
  ⟨block * size, place * size, size, .merged⟩

/-- Does the next block continue a record of less than `most` blocks? -/
def extendsRun (size most : UInt64) (run block : RawExtent) : Bool :=
  checkedAdd run.physical run.length == some block.physical
    && checkedAdd run.logical run.length == some block.logical
    && decide (run.length / size < most)

/-- Looks up `count` blocks from `block` on. `run` is the record that may
still grow. -/
def walkBlocksFrom (source : BlockSource σ) (size most : UInt64) :
    (count : Nat) → (block : UInt64) → (run : Option RawExtent) → σ →
    Trace UInt64 RawExtent × σ
  | 0, _, run, s => ((run.map Step.give).toList, s)
  | count + 1, block, run, s =>
    match source.lookup block s with
    | (.error e, s) => ([.ask block, .fail e], s)
    | (.ok place, s) =>
      let onward := walkBlocksFrom source size most count (block + 1)
      if place = 0 then
        let (more, s) := onward none s
        (.ask block :: ((run.map Step.give).toList ++ more), s)
      else
        let fresh := blockRecord size block place
        match run with
        | none =>
          let (more, s) := onward (some fresh) s
          (.ask block :: more, s)
        | some run =>
          if extendsRun size most run fresh then
            let grown := { run with length := run.length + size }
            let (more, s) := onward (some grown) s
            (.ask block :: more, s)
          else
            let (more, s) := onward (some fresh) s
            (.ask block :: .give run :: more, s)

/-- What a reader of blocks can choose. -/
structure BlockReader where
  fileSize : UInt64
  mostBlocks : UInt64 := 32768
  /-- Start and length of the stretch that is read. -/
  range : Option (UInt64 × UInt64) := none

namespace BlockReader

/-- The first block that is looked up, and the block before which the
walk ends. -/
def bounds (r : BlockReader) (size : UInt64) : UInt64 × UInt64 :=
  let blocks := unitsCovering r.fileSize size
  match r.range with
  | none => (0, blocks)
  | some (start, length) =>
    (start / size, min blocks (unitsCovering (satAdd start length) size))

/-- Reads a file whose blocks have a known size. A record has room for at
least one block. -/
def runWith (r : BlockReader) (source : BlockSource σ) (size : UInt64)
    (s : σ) : Trace UInt64 RawExtent × σ :=
  let (first, stop) := r.bounds size
  walkBlocksFrom source size (max r.mostBlocks 1)
    (stop.toNat - first.toNat) first none s

/-- Reads a file; without a block size nothing can be read. -/
def run (r : BlockReader) (source : BlockSource σ) (s : σ) :
    Except Error (UInt64 × Trace UInt64 RawExtent) × σ :=
  match source.blockSize s with
  | (.error e, s) => (.error e, s)
  | (.ok size, s) =>
    let (trace, s) := r.runWith source size s
    (.ok (size, trace), s)

end BlockReader

end DiskAtlas.Mapping
