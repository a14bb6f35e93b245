import Mathlib
import PgKronika.ByteCodec

/-! Thirty-two byte digests, ordered by their bytes. -/
namespace PgKronika

open ByteCodec

structure Digest where
  bytes : Vector UInt8 32
  deriving DecidableEq

def Digest.asBytes (d : Digest) : Bytes := d.bytes.toList

@[simp] theorem Digest.asBytes_length (d : Digest) : d.asBytes.length = 32 := d.bytes.length_toList

theorem Digest.asBytes_injective {d e : Digest} (h : d.asBytes = e.asBytes) : d = e := by
  obtain ⟨d⟩ := d
  obtain ⟨e⟩ := e
  exact congrArg Digest.mk (Vector.toList_inj.mp h)

instance digestOrder : LinearOrder Digest :=
  LinearOrder.lift' (fun d => leNat d.asBytes.reverse) fun d e h => by
    have hlen : d.asBytes.reverse.length = e.asBytes.reverse.length := by
      rw [List.length_reverse,List.length_reverse,d.asBytes_length,e.asBytes_length]
    have hrev : d.asBytes.reverse = e.asBytes.reverse := by
      rw [← leBytes_leNat d.asBytes.reverse,← leBytes_leNat e.asBytes.reverse,hlen]
      exact congrArg _ h
    exact Digest.asBytes_injective (List.reverse_injective hrev)

end PgKronika
