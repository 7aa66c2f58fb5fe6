/-
Reading the owners of a device. The low key of each request is the last
record of the answer before it. The walk ends with a record marked as the
last, with an empty answer or with an error. Nothing else ends it: a
source that keeps giving the same page is asked for ever, so a run of the
walk is bounded by the number of answers it may use.
-/
import DiskAtlas.Mapping.DeviceRequest
import DiskAtlas.Mapping.Trace

namespace DiskAtlas.Mapping

/-- Something that answers requests for the owners of a device. Its state
may change with every answer. -/
structure DeviceSource (σ : Type) where
  answer : {capacity : Nat} → DeviceBuffer capacity → σ →
    Except Error (DeviceBuffer capacity) × σ

variable {σ : Type}

/-- A device map as it was read. -/
structure DeviceMap where
  trace : Trace DeviceRecord DeviceRecord
  /-- For each answer, whether its devices are encoded numbers. -/
  encoded : List Bool
  deriving Repr, DecidableEq

/-- Reads the records behind the key `low`, using at most `answers`
answers of the source. -/
def walkDevice (source : DeviceSource σ) (capacity : Nat) :
    (answers : Nat) → (low : DeviceRecord) → σ → DeviceMap × σ
  | 0, _, s => (⟨[], []⟩, s)
  | answers + 1, low, s =>
    match source.answer (DeviceBuffer.prepare capacity low .highest) s with
    | (.error e, s) => (⟨[.ask low, .fail e], []⟩, s)
    | (.ok buffer, s) =>
      let page := cutAfter (·.isLast) buffer.answered
      let given := page.map Step.give
      let encoded := buffer.hasEncodedDevices
      match page.getLast? with
      | none => (⟨[.ask low], [encoded]⟩, s)
      | some tail =>
        if tail.isLast then (⟨.ask low :: given, [encoded]⟩, s)
        else
          let (more, s) := walkDevice source capacity answers tail s
          (⟨.ask low :: (given ++ more.trace), encoded :: more.encoded⟩, s)

/-- Reads a device from its start; there is always room for one record. -/
def readDevice (source : DeviceSource σ) (batch answers : Nat) (s : σ) :
    DeviceMap × σ :=
  walkDevice source (max batch 1) answers .lowest s

namespace DeviceMap

/-- Were the devices of the first answer encoded numbers? -/
def firstEncoded (m : DeviceMap) : Bool := m.encoded.headD false

end DeviceMap

end DiskAtlas.Mapping
