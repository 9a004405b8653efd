import JtagRemote.Code.Vpi
import JtagRemote.Stream
import JtagRemote.Lib.Framer

/-!
# The stream of records

A tick executes what stands in the buffer as soon as a whole record came in. The bytes that
wait, and how many they are, outlive the connection.
-/

namespace JtagRemote.Vpi

variable {δ : Type} {d : driver δ} {c : Jtag δ} {s t : Vpi δ} {p : List Byte}

/-- Cut at multiples of `sizeof(struct jtag_vpi_cmd)`. -/
def records : Framer Byte := .blocks Byte SIZEOF_CMD (by decide)

/-! ## What comes in, and what is executed -/

/-- The bytes that the read of a tick brings. -/
def arrived (s : Vpi δ) (net : Net) : List Byte :=
  if s.sock.client_fd ≥ 0 then net.recv.bytes.take (SIZEOF_CMD - s.jtag_vpi_recv) else []

/-- The record that a tick executes, if it does. -/
def executed (d : driver δ) (s : Vpi δ) (net : Net) : List (List Byte) :=
  if s.sock.client_fd ≥ 0 then
    match vpi_read d net.recv s with
    | .ok _ t => if t.jtag_vpi_recv = SIZEOF_CMD then [t.jtag_vpi_buffer] else []
    | .error _ _ => []
  else []

/-- The bytes that come in over some ticks, and the records that these execute. -/
def session (d : driver δ) : Vpi δ → List Net → List Byte × List (List Byte)
  | _, [] => ([], [])
  | s, net :: nets =>
    match jtag_vpi_tick d net s with
    | .ok _ t => (arrived s net ++ (session d t nets).1, executed d s net ++ (session d t nets).2)
    | .error _ _ => (arrived s net, executed d s net)

/-- The server before the first client. -/
def bootVpi (c : Jtag δ) : Vpi δ := ⟨c, bootSock, List.replicate SIZEOF_CMD 0, 0⟩

/-! ## The buffer -/

/-- The beginning `p` of a record waits in the buffer. -/
structure Waits (s : Vpi δ) (p : List Byte) : Prop where
  size : s.jtag_vpi_buffer.length = SIZEOF_CMD
  count : s.jtag_vpi_recv = p.length
  held : s.jtag_vpi_buffer.take p.length = p
  short : p.length < SIZEOF_CMD

theorem boot_waits (c : Jtag δ) : Waits (bootVpi c) [] := ⟨List.length_replicate, rfl, rfl, by decide⟩

/-- A read goes on behind what waits. -/
theorem vpi_read_spec (h : Waits s p) {recv : Recv} (hopen : recv ≠ .closed) :
    ∃ buffer, vpi_read d recv s = .ok () { s with
        jtag_vpi_buffer := buffer
        jtag_vpi_recv := (p ++ recv.bytes.take (SIZEOF_CMD - s.jtag_vpi_recv)).length } ∧
      buffer.length = SIZEOF_CMD ∧
      buffer.take (p ++ recv.bytes.take (SIZEOF_CMD - s.jtag_vpi_recv)).length =
        p ++ recv.bytes.take (SIZEOF_CMD - s.jtag_vpi_recv) := by
  have hcount := h.count
  have hshort := h.short
  have hsize := h.size
  have hcmd : SIZEOF_CMD = 1036 := rfl
  cases recv with
  | closed => exact absurd rfl hopen
  | failed =>
    refine ⟨s.jtag_vpi_buffer, ?_, hsize, ?_⟩
    · simp only [Recv.bytes, List.take_nil, List.append_nil, ← hcount]
      rfl
    · simpa [Recv.bytes] using h.held
  | data first rest =>
    have hle : ((first :: rest).take (SIZEOF_CMD - s.jtag_vpi_recv)).length ≤ SIZEOF_CMD - s.jtag_vpi_recv :=
      List.length_take_le _ _
    have hasks : size_sub SIZEOF_CMD s.jtag_vpi_recv = SIZEOF_CMD - s.jtag_vpi_recv :=
      size_sub_of_le (by omega) (by omega)
    rw [Recv.bytes]
    unfold vpi_read
    simp only
    rw [bind_of_ok (get_apply s), hasks]
    generalize (first :: rest).take (SIZEOF_CMD - s.jtag_vpi_recv) = got at hle
    have hfits : s.jtag_vpi_recv + got.length ≤ s.jtag_vpi_buffer.length := by omega
    refine ⟨splice s.jtag_vpi_buffer s.jtag_vpi_recv got, ?_, ?_, ?_⟩
    · rw [bind_of_ok (memcpy_ok hfits s), List.length_append, ← hcount]
      rfl
    · rw [splice_length _ _ _ hfits, hsize]
    · have hheld : s.jtag_vpi_buffer.take s.jtag_vpi_recv = p := by
        rw [hcount]
        exact h.held
      rw [splice, hheld, List.take_left' rfl]

theorem vpi_read_closed (s : Vpi δ) : Ensures (vpi_read d .closed) s fun _ t =>
    t.jtag_vpi_buffer = s.jtag_vpi_buffer ∧ t.jtag_vpi_recv = s.jtag_vpi_recv ∧ t.sock.client_fd = -1 := by
  unfold vpi_read
  refine Ensures.modify_bind (Ensures.bind (Ensures.focus (P := fun _ _ => True) fun _ _ _ => trivial) ?_)
  rintro _ _ ⟨t, -, rfl⟩
  exact ensures_pure ⟨rfl, rfl, rfl⟩

/-! ## A tick -/

/-- What a command leaves as it is. -/
def frameOf (s : Vpi δ) : Nat × Nat × Int := (s.jtag_vpi_recv, s.jtag_vpi_buffer.length, s.sock.client_fd)

theorem vpi_field_frame (off len : Nat) : Keeps frameOf (vpi_field off len : VpiProg δ (List Byte)) :=
  Keeps.get_bind fun s => keeps_of_same fun t => (bytes_at_spec s.jtag_vpi_buffer off len t).mono fun _ _ h => h.1

theorem vpi_set_buffer_in_frame (b : List Byte) : Keeps frameOf (vpi_set_buffer_in b : VpiProg δ Unit) := by
  intro s
  unfold vpi_set_buffer_in
  refine Ensures.get_bind (Ensures.bind (memcpy_spec _ _ _ s) ?_)
  rintro _ _ ⟨rfl, rfl, hfits⟩
  intro _ t ht
  cases ht
  rw [frameOf, splice_length _ _ _ hfits]
  rfl

theorem vpi_jtag_frame {α : Type} (p : EStateM Fault (Jtag δ) α) : Keeps frameOf (vpi_jtag p) :=
  keeps_focus fun _ _ => rfl

theorem vpi_write_frame (bytes : List Byte) : Keeps frameOf (vpi_sock (write_full bytes) : VpiProg δ Bool) := by
  have hwrite : ∀ k : Sock, Ensures (write_full bytes) k fun _ k' => k'.client_fd = k.client_fd := by
    intro k
    unfold write_full
    refine Ensures.get_bind (ensures_ite (fun _ => ?_) fun _ => ensures_pure rfl)
    exact Ensures.set_bind (ensures_pure rfl)
  intro s
  refine (Ensures.focus (hwrite s.sock)).mono ?_
  rintro _ _ ⟨k, hk, rfl⟩
  rw [frameOf, hk]
  rfl

theorem vpi_scan_frame (flip : Bool) : Keeps frameOf (vpi_scan d flip) :=
  (vpi_field_frame _ _).bind fun _ => (vpi_field_frame _ _).bind fun _ => (vpi_field_frame _ _).bind fun _ =>
    (vpi_jtag_frame _).bind fun _ => (vpi_set_buffer_in_frame _).bind fun _ => Keeps.get_bind fun _ =>
    (vpi_write_frame _).bind fun _ => keeps_pure _

/-- A command counts from the beginning again. -/
theorem vpi_execute_frame (s : Vpi δ) : Ensures (vpi_execute d) s fun _ t =>
    frameOf t = (0, s.jtag_vpi_buffer.length, s.sock.client_fd) := by
  have hrest : Keeps frameOf (do
      vpi_set_buffer_in (List.replicate SIZEOF_BUFFER 0)
      let cmd ← vpi_field 0 4
      if le32 cmd = JtagVpiCommand.CMD_RESET.value then
        let _ ← vpi_jtag (jtag_goto_tlr d)
        pure ()
      else if le32 cmd = JtagVpiCommand.CMD_TMS_SEQ.value then
        let buffer_out ← vpi_field BUFFER_OUT SIZEOF_BUFFER
        let nb_bits ← vpi_field NB_BITS 4
        let _ ← vpi_jtag (jtag_tms_seq d buffer_out (le32 nb_bits))
        pure ()
      else if le32 cmd = JtagVpiCommand.CMD_SCAN_CHAIN.value then vpi_scan d false
      else if le32 cmd = JtagVpiCommand.CMD_SCAN_CHAIN_FLIP_TMS.value then vpi_scan d true
      else pure () : VpiProg δ Unit) := by
    refine (vpi_set_buffer_in_frame _).bind fun _ => (vpi_field_frame _ _).bind fun _ => ?_
    refine keeps_ite ((vpi_jtag_frame _).bind fun _ => keeps_pure _) (keeps_ite ?_ ?_)
    · exact (vpi_field_frame _ _).bind fun _ => (vpi_field_frame _ _).bind fun _ => (vpi_jtag_frame _).bind fun _ =>
        keeps_pure _
    · exact keeps_ite (vpi_scan_frame false) (keeps_ite (vpi_scan_frame true) (keeps_pure _))
  exact Ensures.modify_bind (hrest _)

theorem tick_connected (hfd : s.sock.client_fd ≥ 0) (net : Net) : jtag_vpi_tick d net s = (do
    vpi_read d net.recv
    let s ← get
    if s.jtag_vpi_recv = SIZEOF_CMD then vpi_execute d else pure () : VpiProg δ Unit) s := by
  unfold jtag_vpi_tick
  rw [bind_of_ok (get_apply s)]
  exact congrFun (if_pos hfd) s

theorem tick_alone (hfd : ¬ s.sock.client_fd ≥ 0) (net : Net) : jtag_vpi_tick d net s = (do
    let _ ← vpi_sock (try_accept net.accept)
    pure () : VpiProg δ Unit) s := by
  unfold jtag_vpi_tick
  rw [bind_of_ok (get_apply s)]
  exact congrFun (if_neg hfd) s

/-- A client was let in. -/
def admitted (s : Vpi δ) : Vpi δ := { s with sock := { s.sock with client_fd := 4, alive := true } }

theorem tick_admits (halone : ¬ s.sock.client_fd ≥ 0) (recv : Recv) :
    jtag_vpi_tick d ⟨recv, true⟩ s = .ok () (admitted s) := by
  rw [tick_alone halone]
  rfl

theorem tick_closes (h : Waits s p) (hfd : s.sock.client_fd ≥ 0) {net : Net} (hclosed : net.recv = .closed) :
    executed d s net = [] ∧ Ensures (jtag_vpi_tick d net) s fun _ t => Waits t p ∧ ¬ t.sock.client_fd ≥ 0 := by
  have hread := vpi_read_closed (d := d) s
  have hnot : s.jtag_vpi_recv ≠ SIZEOF_CMD := by
    rw [h.count]
    exact Nat.ne_of_lt h.short
  constructor
  · rw [executed, if_pos hfd, hclosed]
    cases hrun : vpi_read d .closed s with
    | ok a t =>
      obtain ⟨-, hcount, -⟩ := hread a t hrun
      simp only [hcount, hnot, if_false]
    | error e t => rfl
  · rw [Ensures, tick_connected hfd, hclosed]
    refine Ensures.bind hread ?_
    rintro _ t ⟨hbuffer, hcount, hclient⟩
    refine Ensures.get_bind (ensures_ite (fun hfull => absurd (hcount.symm.trans hfull) hnot) fun _ => ?_)
    refine ensures_pure ⟨⟨?_, ?_, ?_, h.short⟩, ?_⟩
    · rw [hbuffer, h.size]
    · rw [hcount, h.count]
    · rw [hbuffer, h.held]
    · rw [hclient]
      decide

/-- What a read comes to, and what is left to do. -/
theorem tick_read_eq (h : Waits s p) (hfd : s.sock.client_fd ≥ 0) {net : Net} (hopen : net.recv ≠ .closed)
    {w : List Byte} (hw : w = p ++ net.recv.bytes.take (SIZEOF_CMD - p.length)) :
    w.length ≤ SIZEOF_CMD ∧ ∃ buffer, buffer.length = SIZEOF_CMD ∧ buffer.take w.length = w ∧
      executed d s net = (if w.length = SIZEOF_CMD then [buffer] else []) ∧
      jtag_vpi_tick d net s = (if w.length = SIZEOF_CMD then vpi_execute d else pure () : VpiProg δ Unit)
        { s with jtag_vpi_buffer := buffer, jtag_vpi_recv := w.length } := by
  obtain ⟨buffer, hread, hsize, hheld⟩ := vpi_read_spec (d := d) h hopen
  rw [h.count, ← hw] at hread hheld
  have htick := tick_connected (d := d) hfd net
  rw [bind_of_ok hread, bind_of_ok (get_apply _)] at htick
  refine ⟨?_, buffer, hsize, hheld, ?_, htick⟩
  · have := h.short
    rw [hw, List.length_append, List.length_take]
    omega
  · rw [executed, if_pos hfd, hread]

/-- A read that completes a record has it executed. -/
theorem tick_reads (h : Waits s p) (hfd : s.sock.client_fd ≥ 0) {net : Net} (hopen : net.recv ≠ .closed) :
    ∃ p', records.Splits (p ++ arrived s net) (executed d s net) p' ∧
      Ensures (jtag_vpi_tick d net) s fun _ t => Waits t p' ∧ t.sock.client_fd = s.sock.client_fd := by
  obtain ⟨hle, buffer, hsize, hheld, hexecuted, htick⟩ := tick_read_eq (d := d) h hfd hopen rfl
  rw [arrived, if_pos hfd, h.count, hexecuted]
  generalize p ++ net.recv.bytes.take (SIZEOF_CMD - p.length) = w at hheld hle htick
  by_cases hfull : w.length = SIZEOF_CMD
  · rw [if_pos hfull] at htick
    rw [if_pos hfull]
    have hw : buffer = w := by
      rw [← hheld, List.take_of_length_le (by omega)]
    refine ⟨[], ?_, ?_⟩
    · rw [hw]
      exact .whole (Framer.blocks_full hfull)
    · rw [Ensures, htick]
      refine (vpi_execute_frame _).mono ?_
      intro _ t hframe
      rw [frameOf, Prod.mk.injEq, Prod.mk.injEq] at hframe
      obtain ⟨hcount, hlen, hclient⟩ := hframe
      exact ⟨⟨hlen.trans hsize, hcount, rfl, by decide⟩, hclient⟩
  · rw [if_neg hfull] at htick
    rw [if_neg hfull]
    refine ⟨w, .stop (Framer.blocks_short (by omega)), ?_⟩
    rw [Ensures, htick]
    exact ensures_pure ⟨⟨hsize, rfl, hheld, by omega⟩, rfl⟩

/-- A tick executes the records that are complete, and the rest waits. -/
theorem tick_splits (h : Waits s p) (net : Net) : ∃ p', records.Splits (p ++ arrived s net) (executed d s net) p' ∧
    Ensures (jtag_vpi_tick d net) s fun _ t => Waits t p' := by
  have hnothing : records.Splits (p ++ []) [] p := by
    rw [List.append_nil]
    exact .stop (Framer.blocks_short h.short)
  by_cases hfd : s.sock.client_fd ≥ 0
  · by_cases hclosed : net.recv = .closed
    · obtain ⟨hexecuted, hwaits⟩ := tick_closes (d := d) h hfd hclosed
      refine ⟨p, ?_, hwaits.mono fun _ _ ht => ht.1⟩
      rw [hexecuted, arrived, if_pos hfd, hclosed, Recv.bytes, List.take_nil]
      exact hnothing
    · obtain ⟨p', hsplits, hwaits⟩ := tick_reads (d := d) h hfd hclosed
      exact ⟨p', hsplits, hwaits.mono fun _ _ ht => ht.1⟩
  · rw [arrived, if_neg hfd, executed, if_neg hfd]
    refine ⟨p, hnothing, ?_⟩
    rw [Ensures, tick_alone hfd]
    refine Ensures.bind (Ensures.focus (P := fun _ _ => True) fun _ _ _ => trivial) ?_
    rintro _ _ ⟨k, -, rfl⟩
    exact ensures_pure ⟨h.size, h.count, h.held, h.short⟩

/-! ## Runs -/

/-- Over any ticks: what is executed is cut from what waited and what came in. -/
theorem session_splits (nets : List Net) (h : Waits s p) :
    ∃ p', records.Splits (p ++ (session d s nets).1) (session d s nets).2 p' ∧
      Ensures (nets.forM (jtag_vpi_tick d)) s fun _ t => Waits t p' := by
  induction nets generalizing s p with
  | nil =>
    refine ⟨p, ?_, ensures_pure h⟩
    rw [session, List.append_nil]
    exact .stop (Framer.blocks_short h.short)
  | cons net nets ih =>
    obtain ⟨p', hsplits, hwaits⟩ := tick_splits (d := d) h net
    cases hrun : jtag_vpi_tick d net s with
    | ok a t =>
      obtain ⟨p'', hrest, hwaits'⟩ := ih (hwaits a t hrun)
      refine ⟨p'', ?_, fun b u hu => ?_⟩
      · rw [session, hrun, ← List.append_assoc]
        exact hsplits.append hrest
      · obtain ⟨_, v, hv, hu⟩ := bind_eq_ok.mp hu
        rw [hrun] at hv
        cases hv
        exact hwaits' b u hu
    | error e t =>
      refine ⟨p', ?_, fun b u hu => ?_⟩
      · rw [session, hrun]
        exact hsplits
      · obtain ⟨_, v, hv, -⟩ := bind_eq_ok.mp hu
        rw [hrun] at hv
        cases hv

end JtagRemote.Vpi
