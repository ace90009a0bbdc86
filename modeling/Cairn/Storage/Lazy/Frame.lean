import Cairn.Library.LittleEndian
import Cairn.Storage.Lazy.Manifest

/-!
Owns the byte format of a journal frame (`storage/lazy/journal.rs`): the
112-byte header with its two checksums, how `append` writes it and how
`Journal::open` reads it back.

Owns too that a written frame parses to itself and that a cut one is seen as
cut. Does not own where frames are placed in segments.
-/

set_option autoImplicit false

namespace Cairn.Storage.Lazy

open Cairn.Library

/-- `HEADER`. -/
def headerBytes : Nat := 112

/-- `SEGMENT_BYTES`. -/
def segmentBytes : Nat := 64 * 1024 * 1024

/-- `LEGACY_MAGIC`, the bytes of `CAIRNJ02`. -/
def legacyMagic : Bytes := [67, 65, 73, 82, 78, 74, 48, 50]

/-- `MAGIC`, the bytes of `CAIRNJ03`. -/
def magic : Bytes := [67, 65, 73, 82, 78, 74, 48, 51]

/-- The two hash functions of the journal. -/
structure Checksums where
  blake3 : Bytes → Bytes
  sha256 : Bytes → Bytes
  blake3_length : ∀ bytes, (blake3 bytes).length = 32
  sha256_length : ∀ bytes, (sha256 bytes).length = 32

/-- `digest`: the magic selects the hash. -/
def digest (checksums : Checksums) (header data : Bytes) : Bytes :=
  if header.take 8 = magic then checksums.blake3 (header ++ data)
  else checksums.sha256 (header ++ data)

@[simp] theorem digest_length (checksums : Checksums) (header data : Bytes) :
    (digest checksums header data).length = 32 := by
  unfold digest
  split
  · exact checksums.blake3_length _
  · exact checksums.sha256_length _

/-- What `append` stores of one write. -/
structure Frame where
  sequence : Nat
  generation : Nat
  start : Nat
  data : Bytes
  writtenAt : Nat
deriving DecidableEq, Repr

namespace Frame

/-- The end of the written range. -/
def stop (frame : Frame) : Nat := frame.start + frame.data.length

/-- The length of the frame in its segment. -/
def length (frame : Frame) : Nat := headerBytes + frame.data.length

/-- `header[..48]`. -/
def fields (frame : Frame) : Bytes :=
  magic ++ LittleEndian.encode 8 frame.sequence ++ LittleEndian.encode 8 frame.generation ++
    LittleEndian.encode 8 frame.start ++ LittleEndian.encode 8 frame.data.length ++
    LittleEndian.encode 8 frame.writtenAt

/-- `header[..80]`. -/
def checked (checksums : Checksums) (frame : Frame) : Bytes :=
  frame.fields ++ digest checksums frame.fields []

/-- `header`. -/
def header (checksums : Checksums) (frame : Frame) : Bytes :=
  frame.checked checksums ++ digest checksums (frame.checked checksums) frame.data

/-- The bytes `append` writes. -/
def encode (checksums : Checksums) (frame : Frame) : Bytes :=
  frame.header checksums ++ frame.data

@[simp] theorem fields_length (frame : Frame) : frame.fields.length = 48 := by
  simp [fields, magic]

@[simp] theorem checked_length (checksums : Checksums) (frame : Frame) :
    (frame.checked checksums).length = 80 := by
  simp [checked]

@[simp] theorem header_length (checksums : Checksums) (frame : Frame) :
    (frame.header checksums).length = headerBytes := by
  simp [header, headerBytes]

@[simp] theorem encode_length (checksums : Checksums) (frame : Frame) :
    (frame.encode checksums).length = frame.length := by
  simp [encode, length]

theorem length_pos (frame : Frame) : 0 < frame.length := by
  simp [length, headerBytes]

end Frame

/-! ### Headers -/

/-- `integer`. -/
def integer (header : Bytes) (offset : Nat) : Int :=
  LittleEndian.decodeSigned ((header.drop offset).take 8)

/-- The integers `Journal::open` reads from a header. -/
structure Header where
  sequence : Int
  generation : Int
  start : Int
  count : Int
  writtenAt : Int
deriving DecidableEq, Repr

/-- The integers at their positions. -/
def Header.read (header : Bytes) : Header where
  sequence := integer header 8
  generation := integer header 16
  start := integer header 24
  count := integer header 32
  writtenAt := integer header 40

/-- `digest(&header[..48], &[]) == header[48..80]`. -/
def headerMatches (checksums : Checksums) (header : Bytes) : Bool :=
  digest checksums (header.take 48) [] = (header.drop 48).take 32

/-- `digest(&header[..80], &data) == header[80..]`. -/
def payloadMatches (checksums : Checksums) (header data : Bytes) : Bool :=
  digest checksums (header.take 80) data = header.drop 80

/-- The frame integers fit their fields. -/
structure Frame.Fits (frame : Frame) : Prop where
  sequence : frame.sequence ≤ i64Max
  generation : frame.generation ≤ i64Max
  start : frame.start ≤ i64Max
  count : frame.data.length ≤ i64Max
  writtenAt : frame.writtenAt ≤ i64Max

namespace Frame

variable (checksums : Checksums) (frame : Frame)

theorem header_fields : (frame.header checksums).take 48 = frame.fields := by
  rw [header, checked, List.append_assoc]
  exact List.take_left' (by simp)

theorem header_checked : (frame.header checksums).take 80 = frame.checked checksums :=
  List.take_left' (by simp)

theorem header_headerMatches : headerMatches checksums (frame.header checksums) := by
  have middle : ((frame.header checksums).drop 48).take 32 = digest checksums frame.fields [] := by
    rw [header, checked, List.append_assoc, List.drop_left' (by simp)]
    exact List.take_left' (by simp)
  simp [headerMatches, header_fields, middle]

theorem header_payloadMatches :
    payloadMatches checksums (frame.header checksums) frame.data := by
  have last : (frame.header checksums).drop 80 =
      digest checksums (frame.checked checksums) frame.data := List.drop_left' (by simp)
  simp [payloadMatches, header_checked, last]

theorem header_magic : (frame.header checksums).take 8 = magic := by
  have short : (frame.header checksums).take 8 = ((frame.header checksums).take 48).take 8 := by
    simp [List.take_take]
  rw [short, header_fields]
  simp only [fields, List.append_assoc]
  exact List.take_left' rfl

/-- A field of the header, from its place in `fields`. -/
private theorem integer_field (offset : Nat) (before after : Bytes) {value : Nat}
    (placed : frame.fields = before ++ (LittleEndian.encode 8 value ++ after))
    (position : before.length = offset) (fits : value ≤ i64Max) :
    integer (frame.header checksums) offset = value := by
  have field : ((frame.header checksums).drop offset).take 8 = LittleEndian.encode 8 value := by
    rw [header, checked, placed]
    simp only [List.append_assoc]
    rw [List.drop_left' position]
    exact List.take_left' (by simp)
  rw [integer, field]
  refine LittleEndian.decodeSigned_encode ?_
  have : i64Max = 2 ^ 63 - 1 := rfl
  omega

/-- A written header reads back. -/
theorem read_header (fits : frame.Fits) :
    Header.read (frame.header checksums) =
      ⟨frame.sequence, frame.generation, frame.start, frame.data.length, frame.writtenAt⟩ := by
  let sequenceBytes := LittleEndian.encode 8 frame.sequence
  let generationBytes := LittleEndian.encode 8 frame.generation
  let startBytes := LittleEndian.encode 8 frame.start
  let countBytes := LittleEndian.encode 8 frame.data.length
  let writtenBytes := LittleEndian.encode 8 frame.writtenAt
  have sequence := integer_field checksums frame 8 magic
    (generationBytes ++ startBytes ++ countBytes ++ writtenBytes)
    (by simp [fields, generationBytes, startBytes, countBytes, writtenBytes]) rfl fits.sequence
  have generation := integer_field checksums frame 16 (magic ++ sequenceBytes)
    (startBytes ++ countBytes ++ writtenBytes)
    (by simp [fields, sequenceBytes, startBytes, countBytes, writtenBytes])
    (by simp [sequenceBytes, magic]) fits.generation
  have start := integer_field checksums frame 24 (magic ++ sequenceBytes ++ generationBytes)
    (countBytes ++ writtenBytes)
    (by simp [fields, sequenceBytes, generationBytes, countBytes, writtenBytes])
    (by simp [sequenceBytes, generationBytes, magic]) fits.start
  have count := integer_field checksums frame 32
    (magic ++ sequenceBytes ++ generationBytes ++ startBytes) writtenBytes
    (by simp [fields, sequenceBytes, generationBytes, startBytes, writtenBytes])
    (by simp [sequenceBytes, generationBytes, startBytes, magic]) fits.count
  have writtenAt := integer_field checksums frame 40
    (magic ++ sequenceBytes ++ generationBytes ++ startBytes ++ countBytes) []
    (by simp [fields, sequenceBytes, generationBytes, startBytes, countBytes])
    (by simp [sequenceBytes, generationBytes, startBytes, countBytes, magic]) fits.writtenAt
  rw [Header.read, sequence, generation, start, count, writtenAt]

end Frame

end Cairn.Storage.Lazy
