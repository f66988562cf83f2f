import Protospy.Ui.Bodies

/-!
# Decoding bodies (`body/decode.ts`)
-/

namespace Protospy

def chunkToBytes : BodyChunk → Bytes
  | .text s => encodeUtf8 s
  | .binary bytes => bytes

def concatenate (arrays : List Bytes) : Bytes := arrays.foldl (· ++ ·) []

def isCompressed (encoding : Text) : Bool :=
  encoding ∈ ["br".toList, "gzip".toList, "deflate".toList, "zstd".toList]

/-- The `bytes` of the result of `decodeBody`. Decompression is left to libraries
and may fail. -/
def decodeBytes (decompress : Bytes → Text → Option Bytes) (body : BodyState) : Option Bytes :=
  let bytes := concatenate (body.chunks.map chunkToBytes)
  match body.contentEncoding with
  | none => some bytes
  | some encoding =>
    let encoding := Text.toLowerCase encoding.toList
    if isCompressed encoding then decompress bytes encoding else some bytes

theorem concatenate_chunks (chunks : List BodyChunk) :
    concatenate (chunks.map chunkToBytes) = chunks.flatMap BodyChunk.bytes := by
  have fold : ∀ (start : Bytes) (arrays : List Bytes),
      arrays.foldl (· ++ ·) start = start ++ arrays.flatten := by
    intro start arrays
    induction arrays generalizing start with
    | nil => simp
    | cons a arrays ih => simp [ih]
  have same : chunkToBytes = BodyChunk.bytes := by
    funext chunk
    cases chunk <;> rfl
  rw [concatenate, fold, List.nil_append, same, List.flatMap_def]

end Protospy
