/-
Packing loses nothing: a packed stream unpacks to the bytes it was made
from (`unpack_pack`). Bytes are cut into runs, runs into blocks and blocks
into blocks that are not too large, each time with the same content; and
every block is read as it was written.

The cuts are compared by what the blocks hold together (`CutOf`), so the
proofs do not depend on where they are made. Reading then goes block by block,
by induction on the list of blocks, with the bytes that were unpacked so far.
-/
import DiskAtlas.Packing.Frame
import DiskAtlas.Proofs.Reader

namespace DiskAtlas.Packing

-- ============================================================== content

/-- The bytes of a run. -/
def expand (run : UInt8 × Nat) : List UInt8 := List.replicate run.2 run.1

namespace Block

/-- What a block unpacks to. -/
def content : Block → List UInt8
  | plain bytes => bytes
  | run b n => List.replicate n b

/-- The number that a block's header says its kind by. -/
def kind : Block → Nat
  | plain _ => 0
  | run _ _ => 1

/-- How many bytes a block unpacks to. -/
def size : Block → Nat
  | plain bytes => bytes.length
  | run _ n => n

/-- What is written of a block behind its header. -/
def body : Block → List UInt8
  | plain bytes => bytes
  | run b _ => [b]

/-- A block is written as three bytes, which hold its size, its kind and
whether it is the last, and then its body. -/
theorem write_eq (b : Block) (last : Bool) :
    b.write last
      = littleEndian 3 (8 * b.size + 2 * b.kind + last.toNat) ++ b.body := by
  cases b <;> rfl

end Block

/-- Runs have the content of the bytes they are of. -/
theorem flatMap_runs (bytes : List UInt8) :
    (runs bytes).flatMap expand = bytes := by
  induction bytes with
  | nil => rfl
  | cons b rest ih =>
    unfold runs
    split
    · next c n more hruns =>
      rw [hruns] at ih
      rw [List.flatMap_cons] at ih
      split
      · next heq =>
        subst heq
        rw [List.flatMap_cons, ← ih]
        rfl
      · rw [List.flatMap_cons, List.flatMap_cons, ih]
        rfl
    · next hruns =>
      rw [hruns] at ih
      rw [← ih]
      rfl

/-- Bytes put in front of some blocks are put in front of what they hold,
whether they are joined to the first block or not. -/
theorem flatMap_prepend (bytes : List UInt8) (blocks : List Block) :
    (prepend bytes blocks).flatMap Block.content
      = bytes ++ blocks.flatMap Block.content := by
  unfold prepend
  split
  · rw [List.flatMap_cons, List.flatMap_cons, ← List.append_assoc]
    rfl
  · rfl

/-- Blocks have the content of the runs they are made of. -/
theorem flatMap_blocksOf (rs : List (UInt8 × Nat)) :
    (blocksOf rs).flatMap Block.content = rs.flatMap expand := by
  induction rs with
  | nil => rfl
  | cons r rest ih =>
    obtain ⟨b, n⟩ := r
    unfold blocksOf
    split
    · rw [List.flatMap_cons, ih]
      rfl
    · rw [flatMap_prepend, ih]
      rfl

-- ============================================================== cutting

/-- Blocks with some content of which none is too large. -/
structure CutOf (content : List UInt8) (blocks : List Block) : Prop where
  content_eq : blocks.flatMap Block.content = content
  fits : ∀ b ∈ blocks, b.size ≤ largestBlock

theorem CutOf.single {b : Block} (h : b.size ≤ largestBlock) :
    CutOf b.content [b] := by
  refine ⟨List.flatMap_singleton .., fun c hc => ?_⟩
  rwa [List.mem_singleton.1 hc]

theorem CutOf.append {bytes more : List UInt8} {bs cs : List Block}
    (h : CutOf bytes bs) (h' : CutOf more cs) :
    CutOf (bytes ++ more) (bs ++ cs) := by
  refine ⟨?_, fun b hb => ?_⟩
  · rw [List.flatMap_append, h.content_eq, h'.content_eq]
  · exact (List.mem_append.1 hb).elim (h.fits b) (h'.fits b)

/-- Cutting bytes into blocks as they come loses none, and makes no block too
large. -/
theorem plainBlocks_cutOf (bytes : List UInt8) :
    CutOf bytes (plainBlocks bytes) := by
  fun_induction plainBlocks bytes with
  | case1 bytes hsmall => exact .single (b := .plain bytes) hsmall
  | case2 bytes hlarge ih =>
    have hfirst : CutOf _ [Block.plain (bytes.take largestBlock)] :=
      .single (List.length_take_le ..)
    have hcut := hfirst.append ih
    rwa [Block.content, List.take_append_drop] at hcut

theorem runBlocks_cutOf (b : UInt8) (n : Nat) :
    CutOf (List.replicate n b) (runBlocks b n) := by
  fun_induction runBlocks b n with
  | case1 n hsmall => exact .single (b := .run b n) hsmall
  | case2 n hlarge ih =>
    have hfirst : CutOf _ [Block.run b largestBlock] :=
      .single (Nat.le_refl _)
    have hcut := hfirst.append ih
    rw [Block.content, List.replicate_append_replicate] at hcut
    rwa [Nat.add_sub_cancel' (by omega)] at hcut

theorem Block.cut_cutOf (b : Block) : CutOf b.content b.cut := by
  cases b with
  | plain bytes => exact plainBlocks_cutOf bytes
  | run b n => exact runBlocks_cutOf b n

theorem flatMap_cut_cutOf (blocks : List Block) :
    CutOf (blocks.flatMap Block.content) (blocks.flatMap Block.cut) := by
  induction blocks with
  | nil => exact ⟨rfl, nofun⟩
  | cons b rest ih =>
    rw [List.flatMap_cons, List.flatMap_cons]
    exact b.cut_cutOf.append ih

/-- The blocks that bytes are packed in have the content of the bytes. -/
theorem packed_cutOf (bytes : List UInt8) :
    CutOf bytes ((blocksOf (runs bytes)).flatMap Block.cut) := by
  have hcut := flatMap_cut_cutOf (blocksOf (runs bytes))
  rwa [flatMap_blocksOf, flatMap_runs] at hcut

-- =============================================================== blocks

/-- What is unpacked once some bytes were unpacked as they are. -/
def Progress.andThen (p : Progress) (bytes : List UInt8) : Progress :=
  { p with bytes := p.bytes ++ bytes.toArray }

theorem Progress.andThen_andThen (p : Progress) (bytes more : List UInt8) :
    (p.andThen bytes).andThen more = p.andThen (bytes ++ more) := by
  simp [andThen]

/-- A block is read as it was written. -/
theorem takes_readBlock (p : Progress) {most : Nat} {b : Block}
    (h : b.size ≤ most) :
    Takes (p.readBlock most b.kind b.size) b.body (p.andThen b.content) := by
  unfold Progress.readBlock
  rw [if_neg (Nat.not_lt.2 h)]
  cases b with
  | plain bytes => exact (takes_readBytes bytes).last (.pure _)
  | run b n =>
    refine (takes_readByte b).last ?_
    rw [Progress.andThen, Block.content, List.toArray_replicate]
    exact .pure _

/-- A header says what it was written to say. -/
theorem header_fields (kind size : Nat) (last : Bool) (h : kind < 4) :
    (8 * size + 2 * kind + last.toNat) / 2 % 4 = kind ∧
      (8 * size + 2 * kind + last.toNat) / 8 = size ∧
      ((8 * size + 2 * kind + last.toNat) % 2 = 1 ↔ last = true) := by
  have hlast := Bool.toNat_lt last
  cases last <;> simp only [Bool.toNat_true, Bool.toNat_false] <;> grind

/-- Reading goes on behind a block that is not the last one, and ends
behind the last one. -/
theorem takes_readBlocks_step {p q : Progress} {most fuel : Nat} {b : Block}
    {last : Bool} {more : List UInt8} (hmost : most ≤ largestBlock)
    (h : b.size ≤ most)
    (hnext : Takes
      (if last then pure (p.andThen b.content)
        else Progress.readBlocks most fuel (p.andThen b.content)) more q) :
    Takes (p.readBlocks most (fuel + 1)) (b.write last ++ more) q := by
  have hkind : b.kind < 4 := by cases b <;> simp [Block.kind]
  obtain ⟨hread, hsize, hlast⟩ := header_fields b.kind b.size last hkind
  have hfits : 8 * b.size + 2 * b.kind + last.toNat < 256 ^ 3 := by
    have := Bool.toNat_lt last
    unfold largestBlock at hmost
    omega
  rw [Block.write_eq, List.append_assoc]
  unfold Progress.readBlocks
  refine (takes_littleEndian hfits).bind ?_
  rw [hread, hsize]
  refine (takes_readBlock p h).bind ?_
  simpa only [hlast] using hnext

/-- Blocks are read as they were written. -/
theorem takes_readBlocks {most fuel : Nat} {blocks : List Block}
    (hmost : most ≤ largestBlock) (h : ∀ b ∈ blocks, b.size ≤ most)
    (hfuel : blocks.length < fuel) (p : Progress) :
    Takes (p.readBlocks most fuel) (writeBlocks blocks)
      (p.andThen (blocks.flatMap Block.content)) := by
  -- every block uses up one unit of fuel, and the last one leaves some
  obtain ⟨fuel, rfl⟩ : ∃ n, fuel = n + 1 := ⟨fuel - 1, by omega⟩
  fun_induction writeBlocks blocks generalizing p fuel with
  | case1 =>
    rw [← List.append_nil (Block.write ..)]
    exact takes_readBlocks_step hmost (Nat.zero_le _) (.pure _)
  | case2 b =>
    rw [← List.append_nil (Block.write ..), List.flatMap_singleton]
    exact takes_readBlocks_step hmost (h b List.mem_cons_self) (.pure _)
  | case3 b rest hrest ih =>
    obtain ⟨fuel, rfl⟩ : ∃ n, fuel = n + 1 := by
      refine ⟨fuel - 1, ?_⟩
      rw [List.length_cons] at hfuel
      omega
    refine takes_readBlocks_step hmost (h b List.mem_cons_self) ?_
    rw [List.flatMap_cons, ← p.andThen_andThen]
    refine ih (fun c hc => h c (List.mem_cons_of_mem _ hc)) _ _ ?_
    rw [List.length_cons] at hfuel
    omega

/-- Every block takes bytes. -/
theorem length_lt_writeBlocks (blocks : List Block) :
    blocks.length < (writeBlocks blocks).length := by
  have hwrite : ∀ (b : Block) (last : Bool), 3 ≤ (b.write last).length := by
    intro b last
    rw [Block.write_eq, List.length_append, length_littleEndian]
    exact Nat.le_add_right ..
  fun_induction writeBlocks blocks with
  | case1 => decide
  | case2 b =>
    have hfirst := hwrite b true
    rw [List.length_singleton]
    omega
  | case3 b rest hrest ih =>
    have hfirst := hwrite b false
    rw [List.length_cons, List.length_append]
    omega

-- =============================================================== frames

/-- The header of frames that are written. -/
theorem takes_readHeader :
    Takes readHeader [0, 0x58]
      { window := 2097152, size := none, hasChecksum := false } :=
  fun _ => rfl

/-- A frame is read as it was written. -/
theorem takes_readFrame {fuel : Nat} (bytes : List UInt8)
    (hfuel : (pack bytes).length ≤ fuel) :
    Takes (readFrame fuel) (pack bytes) bytes := by
  obtain ⟨hcontent, hfits⟩ := packed_cutOf bytes
  have hblocks := length_lt_writeBlocks
    ((blocksOf (runs bytes)).flatMap Block.cut)
  unfold pack at hfuel ⊢
  rw [List.length_append] at hfuel
  generalize (blocksOf (runs bytes)).flatMap Block.cut = blocks at *
  rw [List.append_assoc]
  refine (takes_littleEndian (by decide)).bind ?_
  show Takes (readContent fuel) _ bytes
  refine takes_readHeader.bind ?_
  have hcount : blocks.length < fuel := by omega
  have hread := takes_readBlocks (Nat.le_refl _) hfits hcount {}
  refine hread.last ?_
  have hbytes : (Progress.andThen {} bytes).bytes.toList = bytes := by
    simp [Progress.andThen]
  rw [hcontent]
  show Takes (pure (Progress.andThen {} bytes).bytes.toList) [] bytes
  rw [hbytes]
  exact .pure bytes

/-- A packed stream unpacks to the bytes it was made from. -/
theorem unpack_pack (bytes : List UInt8) :
    unpack (pack bytes) = some bytes := by
  have hread := (takes_readFrame bytes (Nat.le_refl _)).run_eq
  have hlength : 0 < (pack bytes).length := by
    unfold pack
    rw [List.length_append, List.length_append, length_littleEndian]
    omega
  unfold unpack
  obtain ⟨n, hn⟩ : ∃ n, (pack bytes).length = n + 1 :=
    ⟨_, (Nat.sub_add_cancel hlength).symm⟩
  rw [hn, readFrames, hread]
  rfl

end DiskAtlas.Packing
