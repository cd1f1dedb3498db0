import TbjitAlloc.Core.Records
import TbjitAlloc.Common

/-!
# The trace file

A file captured under `TBJIT_TRACE` is a header and then one record for each
event the background thread has processed, as the structures lie in memory.  The
replay tool and the bound benchmark read it with the same checks.
-/

namespace TbjitAlloc.Trace

open TbjitAlloc.Records

/-- `TRACE_MAGIC`, "TBJT". -/
def traceMagic : ℕ := 0x54424A54

/-- `TRACE_VERSION`. -/
def traceVersion : ℕ := 1

structure TraceHeader where
  magic : ℕ
  version : ℕ
  startNs : ℕ
  deriving DecidableEq, Repr

/-- An `AllocEvent` as it lies in memory: four bytes of padding stand between the
thread and the pointer. -/
structure EventRecord where
  callSite : ℕ
  size : ℕ
  timestampNs : ℕ
  threadId : ℕ
  padding : Bytes
  ptr : ℕ
  deriving DecidableEq

/-- What the analyzer reads of a record. -/
def EventRecord.event (record : EventRecord) : AllocEvent where
  callSite := record.callSite
  size := record.size
  threadId := record.threadId
  ptr := record.ptr

def headerView : ℕ × ℕ × ℕ ≃ TraceHeader where
  toFun := fun fields => ⟨fields.1, fields.2.1, fields.2.2⟩
  invFun := fun header => (header.magic, header.version, header.startNs)
  left_inv := fun _ => rfl
  right_inv := fun _ => rfl

def headerCodec : Codec TraceHeader :=
  ((Codec.word 4 (by decide)).pair
    ((Codec.word 4 (by decide)).pair (Codec.word 8 (by decide)))).map headerView

def eventView : ℕ × ℕ × ℕ × ℕ × Bytes × ℕ ≃ EventRecord where
  toFun := fun fields => ⟨fields.1, fields.2.1, fields.2.2.1, fields.2.2.2.1,
    fields.2.2.2.2.1, fields.2.2.2.2.2⟩
  invFun := fun record => (record.callSite, record.size, record.timestampNs,
    record.threadId, record.padding, record.ptr)
  left_inv := fun _ => rfl
  right_inv := fun _ => rfl

def eventCodec : Codec EventRecord :=
  ((Codec.word 4 (by decide)).pair
    ((Codec.word 4 (by decide)).pair
      ((Codec.word 8 (by decide)).pair
        ((Codec.word 4 (by decide)).pair
          ((Codec.raw 4 (by decide)).pair
            (Codec.word 8 (by decide))))))).map eventView

/-- `sizeof(TraceHeader)` and `sizeof(AllocEvent)`. -/
example : headerCodec.size = 16 ∧ eventCodec.size = 32 := ⟨rfl, rfl⟩

/-- A header whose fields fit their words. -/
def TraceHeader.InRange (header : TraceHeader) : Prop :=
  header.magic < 2 ^ 32 ∧ header.version < 2 ^ 32 ∧ header.startNs < 2 ^ 64

/-- A record whose fields fit their words. -/
def EventRecord.InRange (record : EventRecord) : Prop :=
  record.callSite < 2 ^ 32 ∧ record.size < 2 ^ 32 ∧
    record.timestampNs < 2 ^ 64 ∧ record.threadId < 2 ^ 32 ∧
    record.padding.length = 4 ∧ record.ptr < 2 ^ 64

theorem headerCodec_valid (header : TraceHeader) :
    headerCodec.Valid header ↔ header.InRange := Iff.rfl

theorem eventCodec_valid (record : EventRecord) :
    eventCodec.Valid record ↔ record.InRange := Iff.rfl

/-! ## The writer -/

/-- What `writer_open` puts at the start of the file. -/
def openingHeader (startNs : ℕ) : TraceHeader where
  magic := traceMagic
  version := traceVersion
  startNs := startNs

def writerOpen (startNs : ℕ) : Bytes :=
  headerCodec.encode (openingHeader startNs)

def writerWrite (file : Bytes) (record : EventRecord) : Bytes :=
  file ++ eventCodec.encode record

theorem foldl_writerWrite (file : Bytes) (records : List EventRecord) :
    records.foldl writerWrite file = file ++ eventCodec.encodeAll records := by
  induction records generalizing file with
  | nil => exact (List.append_nil file).symm
  | cons record records ih =>
      rw [List.foldl_cons, ih, writerWrite, List.append_assoc]
      rfl

/-! ## The reader -/

inductive TraceError
  | shortHeader
  | badMagic (magic : ℕ)
  | versionMismatch (version : ℕ)
  deriving DecidableEq, Repr

/-- `%08x`. -/
def hex8 (value : ℕ) : String :=
  let digits := Nat.toDigits 16 value
  String.ofList (List.replicate (8 - digits.length) '0' ++ digits)

/-- What the replay tool prints. -/
def TraceError.replayMessage : TraceError → String
  | .shortHeader => "replay: short read on header\n"
  | .badMagic magic =>
      "replay: bad magic 0x" ++ hex8 magic ++ " (want 0x" ++ hex8 traceMagic ++
        ")\n"
  | .versionMismatch version =>
      "replay: version mismatch (file=" ++ toString version ++ ", replay=" ++
        toString traceVersion ++ ")\n"

/-- What the bound benchmark prints. -/
def TraceError.benchMessage : TraceError → String
  | .shortHeader => "bound_bench: short read on header\n"
  | .badMagic magic => "bound_bench: bad magic 0x" ++ hex8 magic ++ "\n"
  | .versionMismatch version =>
      "bound_bench: version mismatch (file=" ++ toString version ++ " tool=" ++
        toString traceVersion ++ ")\n"

/-- `read_trace`, and the reading half of the replay tool. -/
def readTrace (file : Bytes) : Except TraceError (List EventRecord) :=
  if file.length < headerCodec.size then .error .shortHeader
  else
    let header := headerCodec.decode (file.take headerCodec.size)
    if header.magic ≠ traceMagic then .error (.badMagic header.magic)
    else if header.version ≠ traceVersion then
      .error (.versionMismatch header.version)
    else .ok (eventCodec.readAll (file.drop headerCodec.size))

/-! ## Round trips -/

section RoundTrip

variable {startNs : ℕ} {records : List EventRecord} {file tail : Bytes}

theorem openingHeader_inRange (hstart : startNs < 2 ^ 64) :
    (openingHeader startNs).InRange :=
  ⟨by norm_num [openingHeader, traceMagic],
    by norm_num [openingHeader, traceVersion], hstart⟩

theorem length_writerOpen (hstart : startNs < 2 ^ 64) :
    (writerOpen startNs).length = headerCodec.size :=
  headerCodec.length_encode _
    ((headerCodec_valid _).mpr (openingHeader_inRange hstart))

/-- Behind a header the writer wrote, the records are read. -/
theorem readTrace_writerOpen (hstart : startNs < 2 ^ 64) (rest : Bytes) :
    readTrace (writerOpen startNs ++ rest) = .ok (eventCodec.readAll rest) := by
  have hlength := length_writerOpen hstart
  have hheader : headerCodec.decode (writerOpen startNs) =
      openingHeader startNs :=
    headerCodec.decode_encode _
      ((headerCodec_valid _).mpr (openingHeader_inRange hstart))
  have hlong : ¬(writerOpen startNs ++ rest).length < headerCodec.size := by
    rw [List.length_append, hlength]
    omega
  rw [readTrace, if_neg hlong, List.take_left' hlength, List.drop_left' hlength,
    hheader]
  rfl

/-- A reader accepts a file exactly if it is a header the writer writes followed
by whole records and less than one more, and it then returns these records. -/
theorem readTrace_eq_ok_iff :
    readTrace file = .ok records ↔
      (∀ record ∈ records, record.InRange) ∧
      ∃ startNs tail, startNs < 2 ^ 64 ∧ tail.length < eventCodec.size ∧
        file = records.foldl writerWrite (writerOpen startNs) ++ tail := by
  constructor
  · intro hread
    rw [readTrace] at hread
    split at hread
    · cases hread
    next hlong =>
    dsimp only at hread
    split at hread
    · cases hread
    next hmagic =>
    split at hread
    · cases hread
    next hversion =>
    have hlength : (file.take headerCodec.size).length = headerCodec.size := by
      rw [List.length_take]
      omega
    obtain ⟨hrange, hheader⟩ := headerCodec.encode_decode _ hlength
    rw [headerCodec_valid] at hrange
    generalize hdecoded : headerCodec.decode (file.take headerCodec.size) =
      header at hmagic hversion hrange hheader
    obtain ⟨hvalid, tail, htail, hrest⟩ :=
      Codec.readAll_eq_iff.mp (Except.ok.inj hread)
    refine ⟨fun record hrecord => (eventCodec_valid record).mp
      (hvalid record hrecord), header.startNs, tail, hrange.2.2, htail, ?_⟩
    have hopening : openingHeader header.startNs = header := by
      rw [openingHeader, ← not_not.mp hmagic, ← not_not.mp hversion]
    rw [foldl_writerWrite, writerOpen, hopening, hheader, List.append_assoc,
      ← hrest, List.take_append_drop]
  · rintro ⟨hvalid, startNs, tail, hstart, htail, rfl⟩
    rw [foldl_writerWrite, List.append_assoc, readTrace_writerOpen hstart,
      Codec.readAll_encodeAll (fun record hrecord =>
        (eventCodec_valid record).mpr (hvalid record hrecord)) htail]

/-- A trace that was cut off anywhere behind its header, by a crash or a full
disk, yields the records written until then. -/
theorem readTrace_take (hstart : startNs < 2 ^ 64)
    (hvalid : ∀ record ∈ records, record.InRange) (count : ℕ) :
    readTrace ((records.foldl writerWrite (writerOpen startNs)).take
        (headerCodec.size + count)) =
      .ok (records.take (count / eventCodec.size)) := by
  have hlength := length_writerOpen hstart
  have hcodec : ∀ record ∈ records, eventCodec.Valid record :=
    fun record hrecord => (eventCodec_valid record).mpr (hvalid record hrecord)
  have hwritten := @Codec.readAll_encodeAll _ eventCodec records [] hcodec
    eventCodec.size_pos
  rw [List.append_nil] at hwritten
  rw [foldl_writerWrite, ← hlength, List.take_length_add_append,
    readTrace_writerOpen hstart, Codec.readAll_take, hwritten]

/-- A record of which the second copy is cut off. -/
def smallRecord : EventRecord := ⟨7, 48, 9, 3, [0, 0, 0, 0], 4096⟩

theorem readTrace_take_smallRecord :
    readTrace (([smallRecord, smallRecord].foldl writerWrite
        (writerOpen 5)).take (headerCodec.size + 40)) = .ok [smallRecord] := by
  have hrange : smallRecord.InRange :=
    ⟨by decide, by decide, by decide, by decide, rfl, by decide⟩
  have hvalid : ∀ record ∈ [smallRecord, smallRecord], record.InRange := by
    simpa using hrange
  exact readTrace_take (by decide) hvalid 40

end RoundTrip

end TbjitAlloc.Trace
