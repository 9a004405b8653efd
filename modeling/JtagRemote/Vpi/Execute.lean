import JtagRemote.Vpi.Stream

/-!
# The command in the buffer

Whatever bytes a record has: the call that it asks for, with the arguments that lie in it.
-/

namespace JtagRemote.Vpi

open JtagVpiCommand

variable {δ : Type} {d : driver δ} {s : Vpi δ}

/-! ## The arguments -/

def commandOf (b : List Byte) : Nat := le32 ((b.drop 0).take 4)

def outOf (b : List Byte) : List Byte := (b.drop BUFFER_OUT).take SIZEOF_BUFFER

def bitsAsked (b : List Byte) : Nat := le32 ((b.drop NB_BITS).take 4)

theorem outOf_length {b : List Byte} (h : b.length = SIZEOF_CMD) : (outOf b).length = SIZEOF_BUFFER := by
  rw [outOf, List.length_take, List.length_drop, h]
  rfl

/-- The record once its `buffer_in` is cleared. -/
def blank (b : List Byte) : List Byte := splice b BUFFER_IN (List.replicate SIZEOF_BUFFER 0)

theorem blank_length {b : List Byte} (h : b.length = SIZEOF_CMD) : (blank b).length = SIZEOF_CMD := by
  rw [blank, splice_length, h]
  rw [h, List.length_replicate]
  decide

theorem blank_before {b : List Byte} (h : b.length = SIZEOF_CMD) {off len : Nat} (hend : off + len ≤ BUFFER_IN) :
    ((blank b).drop off).take len = (b.drop off).take len := by
  have hhead : (b.take BUFFER_IN).length = BUFFER_IN := by
    rw [List.length_take, h]
    rfl
  rw [blank, splice, List.append_assoc, List.drop_append_of_le_length (by omega),
    List.take_append_of_le_length (by rw [List.length_drop]; omega), List.drop_take, List.take_take,
    Nat.min_eq_left (by omega)]

theorem blank_behind {b : List Byte} (h : b.length = SIZEOF_CMD) {off : Nat} (hoff : BUFFER_IN + SIZEOF_BUFFER ≤ off) :
    (blank b).drop off = b.drop off := by
  have hhead : (b.take BUFFER_IN ++ List.replicate SIZEOF_BUFFER 0).length = BUFFER_IN + SIZEOF_BUFFER := by
    rw [List.length_append, List.length_take, h, List.length_replicate]
    rfl
  obtain ⟨k, rfl⟩ := Nat.exists_eq_add_of_le hoff
  rw [blank, splice, List.length_replicate, ← List.drop_drop, List.drop_left' hhead, List.drop_drop]

theorem blank_in {b : List Byte} (h : b.length = SIZEOF_CMD) :
    ((blank b).drop BUFFER_IN).take SIZEOF_BUFFER = List.replicate SIZEOF_BUFFER 0 := by
  have hhead : (b.take BUFFER_IN).length = BUFFER_IN := by
    rw [List.length_take, h]
    rfl
  rw [blank, splice, List.append_assoc, List.drop_left' hhead, List.take_left' List.length_replicate]

/-! ## The call -/

/-- A command is due, with `buffer_in` cleared. -/
def cleared (s : Vpi δ) : Vpi δ := { s with jtag_vpi_recv := 0, jtag_vpi_buffer := blank s.jtag_vpi_buffer }

/-- A scan and its reply. -/
def scanWith (d : driver δ) (b : List Byte) (flip_tms : Bool) : VpiProg δ Unit := do
  let (_, buffer_in) ←
    vpi_jtag (jtag_scan_chain d (outOf b) (List.replicate SIZEOF_BUFFER 0) (bitsAsked b) flip_tms true)
  vpi_set_buffer_in buffer_in
  let s ← get
  let _ ← vpi_sock (write_full s.jtag_vpi_buffer)
  pure ()

/-- The call that the record `b` asks for. -/
def perform (d : driver δ) (b : List Byte) : VpiProg δ Unit :=
  if commandOf b = CMD_RESET.value then do
    let _ ← vpi_jtag (jtag_goto_tlr d)
    pure ()
  else if commandOf b = CMD_TMS_SEQ.value then do
    let _ ← vpi_jtag (jtag_tms_seq d (outOf b) (bitsAsked b))
    pure ()
  else if commandOf b = CMD_SCAN_CHAIN.value then scanWith d b false
  else if commandOf b = CMD_SCAN_CHAIN_FLIP_TMS.value then scanWith d b true
  else pure ()

theorem vpi_execute_eq (h : s.jtag_vpi_buffer.length = SIZEOF_CMD) :
    vpi_execute d s = perform d s.jtag_vpi_buffer (cleared s) := by
  have hsize : (cleared s).jtag_vpi_buffer.length = SIZEOF_CMD := blank_length h
  have hfield : ∀ {off len}, off + len ≤ SIZEOF_CMD → (vpi_field off len : VpiProg δ (List Byte)) (cleared s) =
      .ok (((blank s.jtag_vpi_buffer).drop off).take len) (cleared s) := by
    intro off len hle
    rw [vpi_field, bind_of_ok (get_apply _), bytes_at_ok (by rw [hsize]; exact hle)]
    rfl
  have hout : (vpi_field BUFFER_OUT SIZEOF_BUFFER : VpiProg δ (List Byte)) (cleared s) =
      .ok (outOf s.jtag_vpi_buffer) (cleared s) := by
    rw [hfield (by decide), blank_before h (by decide)]
    rfl
  have hin : (vpi_field BUFFER_IN SIZEOF_BUFFER : VpiProg δ (List Byte)) (cleared s) =
      .ok (List.replicate SIZEOF_BUFFER 0) (cleared s) := by
    rw [hfield (by decide), blank_in h]
  have hbits : (vpi_field NB_BITS 4 : VpiProg δ (List Byte)) (cleared s) =
      .ok ((s.jtag_vpi_buffer.drop NB_BITS).take 4) (cleared s) := by
    rw [hfield (by decide), blank_behind h (by decide)]
  have hcmd : (vpi_field 0 4 : VpiProg δ (List Byte)) (cleared s) =
      .ok ((s.jtag_vpi_buffer.drop 0).take 4) (cleared s) := by
    rw [hfield (by decide), blank_before h (by decide)]
  have hscan : ∀ flip, vpi_scan d flip (cleared s) = scanWith d s.jtag_vpi_buffer flip (cleared s) := by
    intro flip
    unfold vpi_scan
    rw [bind_of_ok hout, bind_of_ok hin, bind_of_ok hbits]
    rfl
  have hclear : vpi_set_buffer_in (List.replicate SIZEOF_BUFFER 0) { s with jtag_vpi_recv := 0 } =
      .ok () (cleared s) := by
    have hfits : BUFFER_IN + (List.replicate SIZEOF_BUFFER (0 : Byte)).length ≤ s.jtag_vpi_buffer.length := by
      rw [h, List.length_replicate]
      decide
    rw [vpi_set_buffer_in, bind_of_ok (get_apply _), bind_of_ok (memcpy_ok hfits _)]
    rfl
  unfold vpi_execute
  rw [bind_of_ok (modify_apply _ s), bind_of_ok hclear, bind_of_ok hcmd]
  unfold perform commandOf
  split
  · rfl
  split
  · rw [bind_of_ok hout, bind_of_ok hbits]
    rfl
  split
  · exact hscan false
  split
  · exact hscan true
  · rfl

end JtagRemote.Vpi
