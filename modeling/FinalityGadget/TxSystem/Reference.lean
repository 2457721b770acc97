import FinalityGadget.TxSystem.FGP

/-!
# A reference proof-of-work chain

A chain without forks whose block at a height below 256 has that height as its only hash byte, and
a shard configuration in which every block of the chain is final enough.
-/

namespace FinalityGadget.Reference

open Bytes Fallible Text

/-- A configuration of two validators in which one confirmation is enough. -/
def shardConf : PartitionDescriptionRecord where
  partitionID := 1
  validators := [{ nodeID := "A", sigKey := some [1] }, { nodeID := "B", sigKey := some [2] }]
  partitionParams := [("dFG", "1")]

/-- The header of the block whose hash byte is its height. -/
def powHeader (height : UInt8) : BlockHeader where
  hash := hexEncode [height]
  confirmations := 1
  height := height.toUInt64

/-- The answers of a node whose chain has the given tip. -/
def pow (tip : UInt8) : PowClient where
  getTip := .ok (powHeader tip)
  getBlockHeaderByHash text :=
    match hexDecode text with
    | .ok [height] => .ok (powHeader height)
    | _ => .error "Block not found"
  getBlockHeaderByHeight height :=
    if height < 256 then .ok (powHeader height.toUInt8) else .error "Block height out of range"
  getChainTips := .ok []

/-- The height of a block of the chain. -/
def powHeight : List UInt8 → UInt64
  | [height] => height.toUInt64
  | _ => 0

theorem pow_byHash {tip : UInt8} {data : List UInt8} {block : BlockHeader}
    (h : (pow tip).getBlockHeaderByHash (hexEncode data) = .ok block) :
    block.height = powHeight data := by
  simp only [pow, hexDecode_hexEncode] at h
  split at h
  next height heq =>
    cases heq
    cases h
    rfl
  next => cases h

theorem pow_byHeight {tip : UInt8} {requested : UInt64} {block : BlockHeader}
    (h : (pow tip).getBlockHeaderByHeight requested = .ok block) :
    requested < 256 ∧ block = powHeader requested.toUInt8 := by
  simp only [pow] at h
  split at h
  next hlt =>
    cases h
    exact ⟨hlt, rfl⟩
  next => cases h

end FinalityGadget.Reference
