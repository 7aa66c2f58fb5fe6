/-
Which kind a cell shows. A pass over the kinds that are shown keeps the
best one so far and changes it only for a greater count. So it ends with
the first of the commonest kinds (`commonest_eq_argmax`), and with none if
the cell has nothing of what is shown. The commonest kind has as many
extents as all kinds shown together exactly if the others have none
(`count_eq_total_iff`).

What a cell shows has its own mark for each outcome (`mark_injective`), so
a mark tells the outcome that it stands for. Kinds that are not shown are
never asked for their counts: cells that differ in these only look the same
(`dominant_congr`).
-/
import Mathlib.Algebra.Order.BigOperators.Group.List
import Mathlib.Algebra.Order.Ring.Nat
import Mathlib.Data.List.MinMax
import Mathlib.Data.List.Nodup
import DiskAtlas.Overview.Cell
import DiskAtlas.Proofs.Sorting

namespace DiskAtlas

-- ================================================================ kinds

/-- Kinds that are shown come in the order of all kinds. -/
theorem KindSet.kinds_sorted (shown : KindSet) :
    shown.kinds.Pairwise fun a b =>
      ExtentKind.all.idxOf a < ExtentKind.all.idxOf b := by
  have hall : ExtentKind.all.Pairwise fun a b =>
      ExtentKind.all.idxOf a < ExtentKind.all.idxOf b := by decide
  exact hall.filter _

theorem KindSet.kinds_nodup (shown : KindSet) : shown.kinds.Nodup :=
  shown.kinds_sorted.imp fun {a b} hlt => by
    rintro rfl
    exact Nat.lt_irrefl _ hlt

namespace Overview.Cell

variable {c : Cell} {shown : KindSet} {kind : ExtentKind}

/-- The cell has nothing of what is shown. -/
def Bare (c : Cell) (shown : KindSet) : Prop :=
  ∀ kind, shown.has kind = true → c.count kind = 0

/-- The cell has nothing of what is shown beside one kind. -/
def Alone (c : Cell) (shown : KindSet) (kind : ExtentKind) : Prop :=
  ∀ other, shown.has other = true → other ≠ kind → c.count other = 0

/-- A kind is the commonest of those that are shown, and of several that
are as common it is the first one in the list of all kinds. -/
structure Leads (c : Cell) (shown : KindSet) (kind : ExtentKind) :
    Prop where
  isShown : shown.has kind = true
  isPresent : c.count kind ≠ 0
  most : ∀ other, shown.has other = true → c.count other ≤ c.count kind
  first : ∀ other, shown.has other = true → c.count other = c.count kind →
    ExtentKind.all.idxOf kind ≤ ExtentKind.all.idxOf other

-- ======================================================== running maximum

/-- The kinds shown that the cell has extents of. -/
def present (c : Cell) (shown : KindSet) : List ExtentKind :=
  shown.kinds.filter fun kind => c.count kind ≠ 0

theorem mem_present :
    kind ∈ c.present shown ↔
      shown.has kind = true ∧ c.count kind ≠ 0 := by
  simp [present, KindSet.mem_kinds]

/-- A count of zero never beats what was found, so the pass is a search
for a maximum among the kinds that are there. -/
theorem commonest_eq_foldl (c : Cell) (kinds : List ExtentKind)
    (best : Option ExtentKind) :
    c.commonest best kinds =
      (kinds.filter fun kind => c.count kind ≠ 0).foldl
        (List.argAux fun b a => (c.count a).toNat < (c.count b).toNat)
        best := by
  induction kinds generalizing best with
  | nil => rfl
  | cons kind rest ih =>
    rw [commonest, ih, ih]
    by_cases hzero : c.count kind = 0
    · simp [hzero]
    · have hpos : 0 < c.count kind := UInt64.pos_iff_ne_zero.2 hzero
      rw [List.filter_cons_of_pos (by simpa using hzero), List.foldl_cons]
      cases best with
      | none => simp [hpos, List.argAux]
      | some b =>
        simp only [Option.elim_some, List.argAux, UInt64.lt_iff_toNat_lt]
        split <;> rfl

/-- The pass ends with the first maximum among the kinds that are there. -/
theorem commonest_eq_argmax (c : Cell) (shown : KindSet) :
    c.commonest none shown.kinds
      = (c.present shown).argmax fun kind => (c.count kind).toNat :=
  c.commonest_eq_foldl shown.kinds none

/-- The pass asks for the counts of the kinds it is given only. -/
theorem commonest_congr {c' : Cell} {kinds : List ExtentKind}
    {best : Option ExtentKind}
    (h : ∀ kind, kind ∈ kinds ∨ kind ∈ best → c'.count kind = c.count kind) :
    c'.commonest best kinds = c.commonest best kinds := by
  induction kinds generalizing best with
  | nil => rfl
  | cons kind rest ih =>
    have hkind := h kind (.inl List.mem_cons_self)
    have hbest : best.elim 0 c'.count = best.elim 0 c.count := by
      cases best with
      | none => rfl
      | some b => exact h b (.inr rfl)
    have hkept : c'.commonest best rest = c.commonest best rest :=
      ih fun k hk => h k (hk.imp_left (List.mem_cons_of_mem _))
    have htaken : c'.commonest (some kind) rest
        = c.commonest (some kind) rest := by
      refine ih fun k hk => ?_
      rcases hk with hk | hk
      · exact h k (.inl (List.mem_cons_of_mem _ hk))
      · exact Option.some_inj.1 hk ▸ hkind
    rw [commonest, commonest, hbest, hkind, hkept, htaken]

/-- The kind that the pass ends with is the one that leads. -/
theorem commonest_eq_some_iff :
    c.commonest none shown.kinds = some kind ↔ c.Leads shown kind := by
  have hsorted : (c.present shown).Pairwise fun a b =>
      ExtentKind.all.idxOf a < ExtentKind.all.idxOf b :=
    shown.kinds_sorted.filter _
  -- the library's `argmax` takes the first of those that are most
  rw [commonest_eq_argmax, List.argmax_eq_some_iff]
  constructor
  · rintro ⟨hmem, hmost, hfirst⟩
    obtain ⟨hshown, hpresent⟩ := mem_present.1 hmem
    refine ⟨hshown, hpresent, fun other hother => ?_,
      fun other hother heq => ?_⟩
    · by_cases hzero : c.count other = 0
      · exact hzero ▸ UInt64.zero_le
      · exact UInt64.le_iff_toNat_le.2
          (hmost other (mem_present.2 ⟨hother, hzero⟩))
    · have hin : other ∈ c.present shown :=
        mem_present.2 ⟨hother, heq ▸ hpresent⟩
      exact (Sorting.idxOf_le_idxOf_iff hsorted hmem hin).1
        (hfirst other hin (heq ▸ Nat.le_refl _))
  · intro h
    have hmem : kind ∈ c.present shown :=
      mem_present.2 ⟨h.isShown, h.isPresent⟩
    refine ⟨hmem, fun other hin => ?_, fun other hin hle => ?_⟩
    · exact UInt64.le_iff_toNat_le.1 (h.most other (mem_present.1 hin).1)
    · have hother := (mem_present.1 hin).1
      have heq : c.count other = c.count kind :=
        UInt64.le_antisymm (h.most other hother)
          (UInt64.le_iff_toNat_le.2 hle)
      exact (Sorting.idxOf_le_idxOf_iff hsorted hmem hin).2
        (h.first other hother heq)

/-- The pass ends with no kind if there is nothing of what is shown. -/
theorem commonest_eq_none_iff :
    c.commonest none shown.kinds = none ↔ c.Bare shown := by
  rw [commonest_eq_argmax, List.argmax_eq_none, List.eq_nil_iff_forall_not_mem]
  simp only [mem_present, not_and, not_not, Bare]

-- ================================================================ totals

theorem total_eq_sum (c : Cell) (shown : KindSet) :
    c.total shown = (shown.kinds.map fun kind => (c.count kind).toNat).sum := by
  rw [total, List.sum_eq_foldl, List.foldl_map]

/-- What is shown is no more than what is there. -/
theorem total_le_total_all (c : Cell) (shown : KindSet) :
    c.total shown ≤ c.total .all := by
  have hsublist : shown.kinds.Sublist KindSet.all.kinds := by
    have hall : KindSet.all.kinds = ExtentKind.all := by decide
    exact hall ▸ List.filter_sublist
  rw [total_eq_sum, total_eq_sum]
  exact (hsublist.map _).sum_le_sum fun _ _ => Nat.zero_le _

/-- A kind makes up all that is shown if there is nothing beside it. -/
theorem count_eq_total_iff (h : shown.has kind = true) :
    (c.count kind).toNat = c.total shown ↔ c.Alone shown kind := by
  have hsum : (c.count kind).toNat
      + ((shown.kinds.erase kind).map fun k => (c.count k).toNat).sum
        = c.total shown := by
    rw [total_eq_sum]
    exact List.sum_map_erase (fun k => (c.count k).toNat)
      (KindSet.mem_kinds.2 h)
  have hzero : ((shown.kinds.erase kind).map
        fun k => (c.count k).toNat).sum = 0 ↔ c.Alone shown kind := by
    rw [List.sum_eq_zero_iff]
    simp only [List.forall_mem_map, shown.kinds_nodup.mem_erase_iff,
      KindSet.mem_kinds, and_imp, Alone, ← UInt64.toNat_inj,
      UInt64.toNat_zero]
    exact forall_congr' fun _ => forall_comm
  rw [← hzero, ← hsum]
  omega

-- ============================================================== outcomes

/-- Nothing is told of a cell in which nothing that is shown was counted. -/
theorem dominant_eq_none_iff : c.dominant shown = none ↔ c.Bare shown := by
  rw [dominant, Option.map_eq_none_iff, commonest_eq_none_iff]

/-- What is told of a cell, read in both directions: the kind that leads, and
whether it is alone. -/
theorem dominant_eq_some_iff {only : Bool} :
    c.dominant shown = some (kind, only) ↔
      c.Leads shown kind ∧ (only = true ↔ c.Alone shown kind) := by
  simp only [dominant, Option.map_eq_some_iff, Prod.mk.injEq,
    commonest_eq_some_iff]
  constructor
  · rintro ⟨kind, hleads, rfl, rfl⟩
    exact ⟨hleads, beq_iff_eq.trans (count_eq_total_iff hleads.isShown)⟩
  · rintro ⟨hleads, honly⟩
    refine ⟨kind, hleads, rfl, ?_⟩
    rw [Bool.eq_iff_iff, beq_iff_eq, count_eq_total_iff hleads.isShown,
      honly]

/-- Cells that differ in what is not shown have one outcome. -/
theorem dominant_congr {c' : Cell}
    (h : ∀ kind, shown.has kind = true → c'.count kind = c.count kind) :
    c'.dominant shown = c.dominant shown := by
  have hcommonest : c'.commonest none shown.kinds
      = c.commonest none shown.kinds :=
    commonest_congr fun kind hkind => h kind
      (KindSet.mem_kinds.1 (hkind.resolve_right fun hnone => nomatch hnone))
  have htotal : c'.total shown = c.total shown := by
    rw [total_eq_sum, total_eq_sum]
    refine congrArg List.sum (List.map_congr_left fun kind hkind => ?_)
    rw [h kind (KindSet.mem_kinds.1 hkind)]
  rw [dominant, dominant, htotal, hcommonest]
  refine Option.map_congr fun kind hkind => ?_
  rw [h kind (commonest_eq_some_iff.1 hkind).isShown]

-- ================================================================= marks

/-- The mark of an outcome. -/
def mark : Option (ExtentKind × Bool) → Char
  | none => emptySymbol
  | some (kind, true) => kind.symbol
  | some (kind, false) => kind.symbol.toLower

theorem symbol_eq_mark (c : Cell) (shown : KindSet) :
    c.symbol shown = mark (c.dominant shown) := by
  unfold symbol mark
  rfl

/-- Every outcome has a mark of its own. -/
theorem mark_injective : Function.Injective mark := by
  let outcomes : List (Option (ExtentKind × Bool)) :=
    none :: ExtentKind.all.flatMap fun kind =>
      [some (kind, true), some (kind, false)]
  have hmem : ∀ outcome, outcome ∈ outcomes := by
    intro outcome
    match outcome with
    | none => exact List.mem_cons_self
    | some (kind, only) =>
      refine List.mem_cons_of_mem _ (List.mem_flatMap.2
        ⟨kind, kind.mem_all, ?_⟩)
      cases only <;> simp
  have hnodup : (outcomes.map mark).Nodup := by decide
  exact fun a b hab =>
    List.inj_on_of_nodup_map hnodup (hmem a) (hmem b) hab

/-- Two outcomes have different symbols, so the symbol of a cell tells its
outcome. -/
theorem symbol_eq_iff {outcome : Option (ExtentKind × Bool)} :
    c.symbol shown = mark outcome ↔ c.dominant shown = outcome := by
  rw [symbol_eq_mark, mark_injective.eq_iff]

/-- What a cell tells about the kinds that are shown. -/
structure TellsCommonest (c : Cell) (shown : KindSet) : Prop where
  /-- The extents of the kinds shown are counted without running over. -/
  total_lt : c.total shown < UInt64.size
  none_iff : c.dominant shown = none ↔ c.Bare shown
  some_iff : ∀ kind only, c.dominant shown = some (kind, only) ↔
    c.Leads shown kind ∧ (only = true ↔ c.Alone shown kind)
  dot_iff : c.symbol shown = '.' ↔ c.Bare shown
  upper_iff : ∀ kind : ExtentKind, c.symbol shown = kind.symbol ↔
    c.Leads shown kind ∧ c.Alone shown kind
  lower_iff : ∀ kind : ExtentKind, c.symbol shown = kind.symbol.toLower ↔
    c.Leads shown kind ∧ ¬ c.Alone shown kind
  /-- Counts of kinds that are not shown do not matter. -/
  hidden : ∀ c' : Cell,
    (∀ kind, shown.has kind = true → c'.count kind = c.count kind) →
      c'.dominant shown = c.dominant shown ∧
        c'.symbol shown = c.symbol shown

/-- A cell whose counts fit a word together tells the first of the
commonest kinds shown, whether it is the only one, and nothing else. -/
theorem commonest_told (c : Cell) (shown : KindSet)
    (hfits : c.total .all < UInt64.size) : c.TellsCommonest shown where
  total_lt := Nat.lt_of_le_of_lt (c.total_le_total_all shown) hfits
  none_iff := dominant_eq_none_iff
  some_iff := fun _ _ => dominant_eq_some_iff
  dot_iff := by
    rw [show '.' = mark none from rfl, symbol_eq_iff, dominant_eq_none_iff]
  upper_iff := fun kind => by
    rw [show kind.symbol = mark (some (kind, true)) from rfl, symbol_eq_iff,
      dominant_eq_some_iff]
    simp
  lower_iff := fun kind => by
    rw [show kind.symbol.toLower = mark (some (kind, false)) from rfl,
      symbol_eq_iff, dominant_eq_some_iff]
    simp
  hidden := fun c' h => by
    have hdominant := dominant_congr h
    exact ⟨hdominant, by rw [symbol_eq_mark, symbol_eq_mark, hdominant]⟩

/-- Directories and metadata are as common, free space is the commonest
but hidden, and symlinks are shown but absent. -/
theorem commonest_told_tieBehindHidden :
    let c : Cell := ⟨#v[5, 7, 0, 7, 3, 0, 9]⟩
    let shown : KindSet := .ofKinds [.symlink, .metadata, .directory, .file]
    c.total .all < UInt64.size ∧ c.TellsCommonest shown ∧
      c.dominant shown = some (.directory, false) ∧
      c.symbol shown = 'd' ∧ c.Leads shown .directory := by
  intro c shown
  have htold := commonest_told c shown (by decide)
  have hdominant : c.dominant shown = some (.directory, false) := by decide
  exact ⟨by decide, htold, hdominant, by decide,
    ((htold.some_iff _ _).1 hdominant).1⟩

end Overview.Cell

end DiskAtlas
