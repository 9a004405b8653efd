import JtagRemote.Vpi.Stream
import JtagRemote.Scanner

/-!
# What a record asks for

The request, what it does on the board, and the reply.
-/

namespace JtagRemote.Vpi

open JtagState JtagVpiCommand

structure JtagVpiCmd where
  cmd : BitVec 32
  buffer_out : List Byte
  buffer_in : List Byte
  length : BitVec 32
  nb_bits : BitVec 32
  out_size : buffer_out.length = SIZEOF_BUFFER
  in_size : buffer_in.length = SIZEOF_BUFFER

/-! ## The record in memory -/

namespace JtagVpiCmd

def bytes (r : JtagVpiCmd) : List Byte :=
  le_bytes r.cmd ++ (r.buffer_out ++ (r.buffer_in ++ (le_bytes r.length ++ le_bytes r.nb_bits)))

/-- The reply: the request with what was read. -/
def reply (r : JtagVpiCmd) (recv : List Byte) (h : recv.length = SIZEOF_BUFFER) : JtagVpiCmd :=
  { r with buffer_in := recv, in_size := h }

theorem bytes_length (r : JtagVpiCmd) : r.bytes.length = SIZEOF_CMD := by
  simp only [bytes, List.length_append, le_bytes_length, r.out_size, r.in_size]
  rfl

theorem field_cmd (r : JtagVpiCmd) : (r.bytes.drop 0).take 4 = le_bytes r.cmd :=
  List.take_left' (le_bytes_length r.cmd)

theorem field_out (r : JtagVpiCmd) : (r.bytes.drop BUFFER_OUT).take SIZEOF_BUFFER = r.buffer_out := by
  have hhead : (le_bytes r.cmd).length = BUFFER_OUT := rfl
  rw [bytes, List.drop_left' hhead, List.take_left' r.out_size]

theorem field_in (r : JtagVpiCmd) : (r.bytes.drop BUFFER_IN).take SIZEOF_BUFFER = r.buffer_in := by
  have hhead : (le_bytes r.cmd ++ r.buffer_out).length = BUFFER_IN := by
    rw [List.length_append, le_bytes_length, r.out_size]
    rfl
  rw [bytes, ← List.append_assoc, List.drop_left' hhead, List.take_left' r.in_size]

theorem field_nb_bits (r : JtagVpiCmd) : (r.bytes.drop NB_BITS).take 4 = le_bytes r.nb_bits := by
  have hhead : (le_bytes r.cmd ++ r.buffer_out ++ r.buffer_in ++ le_bytes r.length).length = NB_BITS := by
    simp only [List.length_append, le_bytes_length, r.out_size, r.in_size]
    rfl
  rw [bytes, ← List.append_assoc, ← List.append_assoc, ← List.append_assoc, List.drop_left' hhead,
    List.take_of_length_le (Nat.le_of_eq (le_bytes_length _))]

theorem splice_in (r : JtagVpiCmd) {recv : List Byte} (h : recv.length = SIZEOF_BUFFER) :
    splice r.bytes BUFFER_IN recv = (r.reply recv h).bytes := by
  have hhead : (le_bytes r.cmd ++ r.buffer_out).length = BUFFER_IN := by
    rw [List.length_append, le_bytes_length, r.out_size]
    rfl
  rw [splice, bytes, ← List.append_assoc, List.take_left' hhead, h, ← List.drop_drop, List.drop_left' hhead,
    ← r.in_size, List.drop_left' rfl]
  simp only [reply, bytes, List.append_assoc]

end JtagVpiCmd

/-! ## Its meaning -/

/-- `nb_bits` asks for a bit at least, and for no more than the buffers hold. -/
def JtagVpiCmd.Valid (r : JtagVpiCmd) : Prop := 1 ≤ r.nb_bits.toNat ∧ r.nb_bits.toNat ≤ 8 * SIZEOF_BUFFER

/-- The cycles of a record, what it writes, and the TAP state after it. -/
inductive Performs (st : JtagState) (r : JtagVpiCmd) : List Cycle → List Byte → JtagState → Prop
  | reset {cyc : List Cycle} : r.cmd.toNat = CMD_RESET.value →
      (∀ from_, stateAfter from_ (cyc.map Cycle.tms) = TestLogicReset) → cyc.map Cycle.tms = List.replicate 5 true →
      Performs st r cyc [] TestLogicReset
  | tms_seq {cyc : List Cycle} : r.cmd.toNat = CMD_TMS_SEQ.value →
      cyc.map Cycle.tms = bitsOf r.buffer_out r.nb_bits.toNat →
      Performs st r cyc [] (stateAfter st (bitsOf r.buffer_out r.nb_bits.toNat))
  | scan {cyc : List Cycle} {recv : List Byte} {hrecv : recv.length = SIZEOF_BUFFER} (flip : Bool) :
      r.cmd.toNat = (if flip then CMD_SCAN_CHAIN_FLIP_TMS else CMD_SCAN_CHAIN).value →
      ScanCycles st r.buffer_out r.nb_bits.toNat flip (cyc.map Cycle.pins) → Holds recv (cyc.map Cycle.tdo) →
      Performs st r cyc (r.reply recv hrecv).bytes (stateAfterScan st flip)
  | other : CMD_SCAN_CHAIN_FLIP_TMS.value < r.cmd.toNat → Performs st r [] [] st

/-- Records one after the other. -/
inductive Plays : JtagState → List JtagVpiCmd → List Cycle → List Byte → JtagState → Prop
  | nil (st : JtagState) : Plays st [] [] [] st
  | cons {st st' st'' : JtagState} {r : JtagVpiCmd} {rs : List JtagVpiCmd} {cyc cyc' : List Cycle}
      {bytes bytes' : List Byte} : Performs st r cyc bytes st' → Plays st' rs cyc' bytes' st'' →
      Plays st (r :: rs) (cyc ++ cyc') (bytes ++ bytes') st''

end JtagRemote.Vpi
