import Mathlib.Logic.Function.Basic
import MoonProto.Lib.FlagStream

/-!
# SynLZ

The compressor and the decompressor of `src/compression.rs`. Every indexed
access of the source that could panic is a checked one here, and `none` is the
panic. The scratch tables of 4096 slots are functions of the slot number, which
both sides keep below 4096. Loops recurse on the number of iterations left.

The open control word of the compressor, which the source patches in place, is
kept apart by `FlagStream.Writer` until it is full.
-/

namespace MoonProto.SynLZ

open Codec FlagStream

/-- `MAX_DECOMPRESSED_SIZE`. -/
def maxDecompressedSize : Nat := 512 * 1024 * 1024

/-- Table slot of a four-byte word. -/
def hash (v : UInt32) : Nat := (((v >>> 12) ^^^ v) &&& 4095).toNat

/-- The little-endian word at a position. -/
def wordAt (buf : Bytes) (i : Nat) : Option UInt32 := (slice buf i (i + 4)).map readU32

def writeAt (buf : Bytes) (i : Nat) (b : UInt8) : Option Bytes :=
  if i < buf.length then some (buf.set i b) else none

/-! ## Decompression -/

/-- The locals of `synlz_decompress_inner`. -/
structure Decoder where
  pos : Nat
  dstPos : Nat
  lastHashed : Int
  dst : Bytes
  offset : Nat → Nat

inductive DecompressResult
  | ok (finalPos : Nat)
  | corrupt
deriving DecidableEq

namespace Decoder

/-- Hash the position behind `last_hashed`. -/
def recordNext (s : Decoder) : Option Decoder :=
  let lh := (s.lastHashed + 1).toNat
  if lh + 4 ≤ s.dst.length then do
    let v ← wordAt s.dst lh
    some { s with
      lastHashed := s.lastHashed + 1
      offset := Function.update s.offset (hash v) lh }
  else some { s with lastHashed := s.lastHashed + 1 }

/-- Hash that many positions. -/
def recordMany : Nat → Decoder → Option Decoder
  | 0, s => some s
  | n + 1, s => s.recordNext.bind (recordMany n)

end Decoder

/-- The overlapping copy: one byte at a time, front to back. -/
def moveByOne (dst : Bytes) (copyFrom dstPos t : Nat) : Option Bytes :=
  (List.range t).foldlM
    (fun dst i => (dst[copyFrom + i]?).bind fun b => writeAt dst (dstPos + i) b) dst

/-- `copy_within(copy_from..copy_from + t, dst_pos)`. -/
def copyWithin (dst : Bytes) (copyFrom dstPos t : Nat) : Option Bytes := do
  let chunk ← slice dst copyFrom (copyFrom + t)
  if dstPos + t ≤ dst.length then
    some (dst.take dstPos ++ chunk ++ dst.drop (dstPos + t))
  else none

/-- Behind a written literal: stop at the end of the input, otherwise hash one
position if the table lags by more than two. -/
def afterLiteral (src : Bytes) (s : Decoder) : Option (Decoder × Option DecompressResult) :=
  if src.length ≤ s.pos then some (s, some (.ok s.dstPos))
  else if s.lastHashed < (s.dstPos : Int) - 3 then s.recordNext.map fun s => (s, none)
  else some (s, none)

/-- The literal branch: the state behind it and, if decoding stops there, the
result. -/
def literal (src : Bytes) (outSize : Nat) (s : Decoder) :
    Option (Decoder × Option DecompressResult) :=
  if outSize ≤ s.dstPos then some (s, some (.ok s.dstPos))
  else
    (src[s.pos]?).bind fun b =>
    (writeAt s.dst s.dstPos b).bind fun dst =>
    afterLiteral src { s with dst := dst, pos := s.pos + 1, dstPos := s.dstPos + 1 }

/-- Behind a copy of `t` bytes: stop at the end of the input, otherwise hash the
positions up to the copy and skip those inside it. -/
def afterCopy (src : Bytes) (t : Nat) (s : Decoder) : Option (Decoder × Option DecompressResult) :=
  if src.length ≤ s.pos then some (s, some (.ok s.dstPos))
  else (s.recordMany (s.dstPos - s.lastHashed).toNat).map fun s =>
    ({ s with
      dstPos := s.dstPos + t
      lastHashed := ((s.dstPos + t : Nat) : Int) - 1 }, none)

/-- The back-reference branch once the length is known. -/
def copyRef (src : Bytes) (outSize hIdx t : Nat) (s : Decoder) :
    Option (Decoder × Option DecompressResult) :=
  let copyFrom := s.offset hIdx
  if outSize < s.dstPos + t then some (s, some .corrupt)
  else if s.dst.length < copyFrom + t ∨ s.dstPos < copyFrom then some (s, some .corrupt)
  else
    (if s.dstPos - copyFrom < t then moveByOne s.dst copyFrom s.dstPos t
      else copyWithin s.dst copyFrom s.dstPos t).bind fun dst =>
    afterCopy src t { s with dst := dst }

/-- The back-reference branch: a length of 2 announces one more length byte. -/
def backRef (src : Bytes) (outSize : Nat) (s : Decoder) :
    Option (Decoder × Option DecompressResult) :=
  if src.length < s.pos + 2 then some (s, some (.ok s.dstPos))
  else
    ((slice src s.pos (s.pos + 2)).map readU16).bind fun hWord =>
    let s := { s with pos := s.pos + 2 }
    let hIdx := (hWord >>> 4).toNat
    let t := (hWord &&& 15).toNat + 2
    if t = 2 then
      if src.length ≤ s.pos then some (s, some (.ok s.dstPos))
      else
        (src[s.pos]?).bind fun b =>
        copyRef src outSize hIdx (b.toNat + 18) { s with pos := s.pos + 1 }
    else copyRef src outSize hIdx t s

/-- The two loops of `synlz_decompress_inner`. The control is `none` where the
outer loop reads a control word, and the word with the mask of the current item
inside the inner one. -/
def decodeLoop (src : Bytes) (outSize : Nat) :
    Nat → Option (UInt32 × UInt32) → Decoder → Option (Bytes × DecompressResult)
  | 0, _, _ => none
  | n + 1, none, s =>
    if s.pos + 4 ≤ src.length then
      (wordAt src s.pos).bind fun cw =>
        decodeLoop src outSize n (some (cw, 1)) { s with pos := s.pos + 4 }
    else some (s.dst, .ok s.dstPos)
  | n + 1, some (cw, cwbit), s =>
    if s.pos < src.length then
      (if cw &&& cwbit = 0 then literal src outSize s else backRef src outSize s).bind
        fun r =>
          match r.2 with
          | some result => some (r.1.dst, result)
          | none => decodeLoop src outSize n
              (if cwbit <<< 1 = 0 then none else some (cw, cwbit <<< 1)) r.1
    else some (s.dst, .ok s.dstPos)

/-- `synlz_decompress_inner`. Every iteration consumes input, so `src.length`
iterations and a last one are enough. -/
def decompressInner (src dst : Bytes) (pos outSize : Nat) : Option (Bytes × DecompressResult) :=
  decodeLoop src outSize (src.length + 1) none ⟨pos, 0, -1, dst, fun _ => 0⟩

/-- The body of `synlz_decompress_bounded` behind the size header. -/
def decompressBody (src : Bytes) (pos outSize maxOutput : Nat) : Option (Option Bytes) :=
  if maxOutput < outSize then some none
  else (decompressInner src (List.replicate outSize 0) pos outSize).map fun r =>
    match r.2 with
    | .ok finalPos => some (r.1.take (min finalPos outSize))
    | .corrupt => none

/-- `synlz_decompress_bounded`. The outer `Option` is the panic, the inner one
the result. -/
def decompressBounded (src : Bytes) (maxOutput : Nat) : Option (Option Bytes) :=
  if src.length < 2 then some none
  else do
    let firstWord ← (slice src 0 2).map readU16
    if firstWord = 0 then some (some [])
    else if firstWord &&& 0x8000 ≠ 0 then
      if src.length < 4 then some none
      else do
        let secondWord ← (slice src 2 4).map readU16
        decompressBody src 4 ((firstWord &&& 0x7FFF).toNat ||| (secondWord.toNat <<< 15)) maxOutput
    else decompressBody src 2 firstWord.toNat maxOutput

/-! ## Compression -/

/-- The locals of `synlz_compress_inner`; an empty `offset` slot (`usize::MAX`)
is `none`. -/
structure Compressor where
  srcPos : Nat
  writer : Writer
  offset : Nat → Option Nat
  cache : Nat → UInt32

/-- The match loop: `left` more bytes may be compared. -/
def matchLen (src : Bytes) (oPos srcPos : Nat) : (left t : Nat) → Option Nat
  | 0, t => some t
  | left + 1, t =>
    if oPos + t < src.length then do
      let a ← src[oPos + t]?
      let b ← src[srcPos + t]?
      if a = b then matchLen src oPos srcPos left (t + 1) else some t
    else some t

/-- The two or three bytes of a back-reference. -/
def backRefBytes (h t : Nat) : Bytes :=
  let hShifted := UInt16.ofNat h <<< 4
  if t ≤ 15 then u16Bytes (UInt16.ofNat t ||| hShifted)
  else u16Bytes hShifted ++ [UInt8.ofNat (t - 16)]

namespace Compressor

/-- Record the word at the current position in both tables. -/
def visit (s : Compressor) (v : UInt32) : Compressor :=
  { s with
    offset := Function.update s.offset (hash v) (some s.srcPos)
    cache := Function.update s.cache (hash v) v }

def emitLiteral (src : Bytes) (s : Compressor) : Option Compressor :=
  (src[s.srcPos]?).map fun b =>
    { s with srcPos := s.srcPos + 1, writer := s.writer.emit (false, [b]) }

/-- A back-reference under slot `h` to an occurrence at `o`. The first three
bytes are known to match; `t` counts from the third. -/
def emitBackRef (src : Bytes) (h o : Nat) (s : Compressor) : Option Compressor :=
  let srcPos := s.srcPos + 2
  if src.length < srcPos + 1 then none
  else
    let tmax := min (src.length - srcPos - 1) (255 + 16)
    (matchLen src (o + 2) srcPos (tmax - 1) 1).map fun t =>
      { s with srcPos := srcPos + t, writer := s.writer.emit (true, backRefBytes h t) }

/-- The occurrence a back-reference may go to. -/
def candidate (s : Compressor) (v : UInt32) : Option Nat :=
  (s.offset (hash v)).filter fun o =>
    (v ^^^ s.cache (hash v)) &&& 0x00FFFFFF = 0 ∧ s.srcPos > o + 2

/-- One round of the main loop. -/
def round (src : Bytes) (s : Compressor) : Option Compressor := do
  let v ← wordAt src s.srcPos
  match s.candidate v with
  | some o => (s.visit v).emitBackRef src (hash v) o
  | none => (s.visit v).emitLiteral src

/-- The main loop, which stops 11 bytes before the end. -/
def mainLoop (src : Bytes) : Nat → Compressor → Option Compressor
  | 0, _ => none
  | n + 1, s =>
    if s.srcPos ≤ src.length - 11 ∧ s.srcPos + 3 < src.length then
      (s.round src).bind (mainLoop src n)
    else some s

/-- The bytes left over are literals. -/
def finish (src : Bytes) (s : Compressor) : Writer :=
  (src.drop s.srcPos).foldl (fun w b => w.emit (false, [b])) s.writer

end Compressor

/-- The size header. -/
def sizeHeader (size : Nat) : Bytes :=
  if 0x8000 ≤ size then
    u16Bytes (0x8000 ||| (UInt16.ofNat size &&& 0x7FFF)) ++ u16Bytes (UInt16.ofNat (size >>> 15))
  else u16Bytes (UInt16.ofNat size)

/-- `synlz_compress`. -/
def compressImpl (src : Bytes) : Option Bytes :=
  if src.length = 0 then some (sizeHeader 0)
  else
    (Compressor.mainLoop src (src.length + 1)
      ⟨0, Writer.start (sizeHeader src.length), fun _ => none, fun _ => 0⟩).map fun s =>
        (s.finish src).bytes

end MoonProto.SynLZ
