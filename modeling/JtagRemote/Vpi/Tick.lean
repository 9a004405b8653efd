import JtagRemote.Vpi.Records
import JtagRemote.Drivers

/-!
# One client of the VPI server

However its bytes come in, a record is executed when its last byte is there, and the board and the
replies are those of the records one after the other.
-/

namespace JtagRemote.Vpi

open JtagState JtagVpiCommand

section

variable {δ : Type} {board : Board} {d : driver δ} (A : Scanner board d) {s : Vpi δ} {l : Line}

/-- A client is there, and the adapter is in order with no answer left to receive. -/
structure Serves (s : Vpi δ) (l : Line) : Prop where
  connected : s.sock.client_fd ≥ 0
  alive : s.sock.alive = true
  stands : A.Stands s.jtag.state s.jtag.dev l
  ready : l.pending = []

/-- What some records have done: the cycles on the board, and the bytes that were written. -/
structure Did (s : Vpi δ) (l : Line) (cyc : List Cycle) (bytes : List Byte) (t : Vpi δ) : Prop where
  ran : board.Ran l.log cyc
  written : t.sock.written = s.sock.written ++ bytes
  serves : ∃ tms, Serves A t ⟨l.log ++ cyc, tms, []⟩

/-! ## A command -/

theorem field_ok {r : JtagVpiCmd} (hbuf : s.jtag_vpi_buffer = r.bytes) {off len : Nat} (h : off + len ≤ SIZEOF_CMD) :
    (vpi_field off len : VpiProg δ (List Byte)) s = .ok ((r.bytes.drop off).take len) s := by
  have hfits : off + len ≤ s.jtag_vpi_buffer.length := by rw [hbuf, r.bytes_length]; exact h
  rw [vpi_field, bind_of_ok (get_apply s), bytes_at_ok hfits, hbuf]

theorem set_buffer_in_ok {r : JtagVpiCmd} (hbuf : s.jtag_vpi_buffer = r.bytes) {recv : List Byte}
    (h : recv.length = SIZEOF_BUFFER) :
    (vpi_set_buffer_in recv : VpiProg δ Unit) s = .ok () { s with jtag_vpi_buffer := (r.reply recv h).bytes } := by
  have hfits : BUFFER_IN + recv.length ≤ s.jtag_vpi_buffer.length := by
    rw [hbuf, r.bytes_length, h]
    decide
  rw [vpi_set_buffer_in, bind_of_ok (get_apply s), bind_of_ok (memcpy_ok hfits s), hbuf, r.splice_in h]
  rfl

theorem did_of_clock {cyc : List Cycle} {bytes : List Byte} {ps : List Pins} {t : Vpi δ} (hready : l.pending = [])
    (hcyc : cyc = board.cycles l.log ps) (hwritten : t.sock.written = s.sock.written ++ bytes)
    (hconnected : t.sock.client_fd ≥ 0) (halive : t.sock.alive = true)
    (h : A.Stands t.jtag.state t.jtag.dev (l.clock board ps)) : Did A s l cyc bytes t := by
  subst hcyc
  have hline : l.clock board ps = ⟨l.log ++ board.cycles l.log ps, (ps.map Pins.tms).getLastD l.tms, []⟩ := by
    rw [Line.clock, hready]
  rw [hline] at h
  exact ⟨cycles_ran board _ _, hwritten, _, hconnected, halive, h, rfl⟩

/-- A TMS sequence writes nothing. -/
theorem tms_seq_spec (h : Serves A s l) (data : List Byte) {n : Nat} (hn : 1 ≤ n) (hn' : n ≤ MAX_BITS)
    (hlen : n ≤ 8 * data.length) :
    Returns (do
      let _ ← vpi_jtag (jtag_tms_seq d data n)
      pure () : VpiProg δ Unit) s fun _ t =>
      t.jtag.state = stateAfter s.jtag.state (bitsOf data n) ∧ ∃ cyc, cyc.map Cycle.tms = bitsOf data n ∧
        Did A s l cyc [] t := by
  refine Returns.bind (Returns.focus (A.tms_seq_spec data h.stands hn hn' hlen)) ?_
  rintro _ _ ⟨c, ⟨-, hstate, ps, hps, hstands⟩, rfl⟩
  refine returns_pure ⟨hstate, board.cycles l.log ps, ?_, ?_⟩
  · rw [cycles_tms, hps]
  · exact did_of_clock A h.ready rfl (List.append_nil _).symm h.connected h.alive hstands

/-- A scan is answered with its record. -/
theorem vpi_scan_spec (h : Serves A s l) {r : JtagVpiCmd} (hvalid : r.Valid)
    (hbuf : s.jtag_vpi_buffer = (r.reply (List.replicate SIZEOF_BUFFER 0) List.length_replicate).bytes) (flip : Bool) :
    Returns (vpi_scan d flip) s fun _ t => t.jtag.state = stateAfterScan s.jtag.state flip ∧
      ∃ cyc recv, ∃ hrecv : recv.length = SIZEOF_BUFFER,
        ScanCycles s.jtag.state r.buffer_out r.nb_bits.toNat flip (cyc.map Cycle.pins) ∧
        Holds recv (cyc.map Cycle.tdo) ∧ Did A s l cyc (r.reply recv hrecv).bytes t := by
  generalize hrq : r.reply (List.replicate SIZEOF_BUFFER 0) List.length_replicate = q at hbuf
  have hout : q.buffer_out = r.buffer_out := by rw [← hrq]; rfl
  have hin : q.buffer_in = List.replicate SIZEOF_BUFFER 0 := by rw [← hrq]; rfl
  have hbits : q.nb_bits = r.nb_bits := by rw [← hrq]; rfl
  have hreply : ∀ recv h, q.reply recv h = r.reply recv h := by
    intro recv h
    rw [← hrq]
    rfl
  obtain ⟨hn, hn'⟩ := hvalid
  have hmax : 8 * SIZEOF_BUFFER ≤ MAX_BITS := by decide
  have hsize : r.buffer_out.length = SIZEOF_BUFFER := r.out_size
  unfold vpi_scan
  refine Returns.of_eq_bind (field_ok hbuf (by decide)) ?_
  refine Returns.of_eq_bind (field_ok hbuf (by decide)) ?_
  refine Returns.of_eq_bind (field_ok hbuf (by decide)) ?_
  rw [q.field_out, q.field_in, q.field_nb_bits, hout, hin, hbits, le32_word]
  have hread := @Scanner.read_spec _ _ _ A _ _ _ _ SIZEOF_BUFFER flip h.stands h.ready hn (hn'.trans hmax)
    (by rw [hsize]; exact hn') hn'
  refine Returns.bind (Returns.focus hread) ?_
  rintro ⟨_, recv⟩ _ ⟨c, ⟨-, hrecv, hstate, ps, hps, hholds, hstands⟩, rfl⟩
  refine Returns.of_eq_bind (set_buffer_in_ok (s := { s with jtag := c }) hbuf hrecv) (Returns.get_bind ?_)
  have hwrite : vpi_sock (write_full (q.reply recv hrecv).bytes)
      { s with jtag := c, jtag_vpi_buffer := (q.reply recv hrecv).bytes } =
      .ok true { s with
        jtag := c
        jtag_vpi_buffer := (q.reply recv hrecv).bytes
        sock := { s.sock with written := s.sock.written ++ (q.reply recv hrecv).bytes } } := by
    unfold vpi_sock focus
    rw [Sock.write_full_ok h.alive]
  refine Returns.of_eq_bind hwrite (returns_pure ⟨hstate, board.cycles l.log ps, recv, hrecv, ?_, hholds, ?_⟩)
  · rw [cycles_pins]
    exact hps
  · rw [hreply]
    exact did_of_clock A h.ready rfl rfl h.connected h.alive hstands

theorem execute_spec (h : Serves A s l) {r : JtagVpiCmd} (hvalid : r.Valid) (hbuf : s.jtag_vpi_buffer = r.bytes) :
    Returns (vpi_execute d) s fun _ t => ∃ cyc bytes, Performs s.jtag.state r cyc bytes t.jtag.state ∧
      Did A s l cyc bytes t := by
  have hsize : r.buffer_out.length = SIZEOF_BUFFER := r.out_size
  unfold vpi_execute
  refine Returns.modify_bind ?_
  have hzeros := set_buffer_in_ok (s := { s with jtag_vpi_recv := 0 }) hbuf
    (List.length_replicate (n := SIZEOF_BUFFER) (a := (0 : Byte)))
  refine Returns.of_eq_bind hzeros ?_
  generalize hq : r.reply (List.replicate SIZEOF_BUFFER 0) List.length_replicate = q
  generalize hs : ({ s with jtag_vpi_recv := 0, jtag_vpi_buffer := q.bytes } : Vpi δ) = s₁
  have hjtag : s₁.jtag = s.jtag := by rw [← hs]
  have hsock : s₁.sock = s.sock := by rw [← hs]
  have hbuf₁ : s₁.jtag_vpi_buffer = q.bytes := by rw [← hs]
  have h₁ : Serves A s₁ l := by
    refine ⟨?_, ?_, ?_, h.ready⟩
    · rw [hsock]
      exact h.connected
    · rw [hsock]
      exact h.alive
    · rw [hjtag]
      exact h.stands
  have hcmd : q.cmd = r.cmd := by rw [← hq]; rfl
  have hout : q.buffer_out = r.buffer_out := by rw [← hq]; rfl
  have hbits : q.nb_bits = r.nb_bits := by rw [← hq]; rfl
  have hdid : ∀ {cyc bytes t}, Did A s₁ l cyc bytes t → Did A s l cyc bytes t := by
    intro cyc bytes t hd
    exact ⟨hd.ran, hsock ▸ hd.written, hd.serves⟩
  refine Returns.of_eq_bind (field_ok hbuf₁ (by decide)) ?_
  rw [q.field_cmd, hcmd, le32_word]
  split
  · rename_i hreset
    refine (tms_seq_spec A h₁ [0x1F] (n := 5) (by decide) (by decide) (by decide)).mono ?_
    rintro _ t ⟨hstate, cyc, hcyc, hd⟩
    have hones : bitsOf [0x1F] 5 = List.replicate 5 true := by decide
    rw [hones] at hcyc hstate
    rw [five_ones] at hstate
    refine ⟨cyc, [], ?_, hdid hd⟩
    rw [hstate]
    exact .reset hreset (fun from_ => by rw [hcyc, five_ones]) hcyc
  split
  · rename_i hseq
    refine Returns.of_eq_bind (field_ok hbuf₁ (by decide)) ?_
    refine Returns.of_eq_bind (field_ok hbuf₁ (by decide)) ?_
    rw [q.field_out, q.field_nb_bits, hout, hbits, le32_word]
    obtain ⟨hn, hn'⟩ := hvalid
    have hmax : 8 * SIZEOF_BUFFER ≤ MAX_BITS := by decide
    refine (tms_seq_spec A h₁ r.buffer_out hn (hn'.trans hmax) (by rw [hsize]; exact hn')).mono ?_
    rintro _ t ⟨hstate, cyc, hcyc, hd⟩
    refine ⟨cyc, [], ?_, hdid hd⟩
    rw [hstate, hjtag]
    exact .tms_seq hseq hcyc
  have hscan : ∀ flip : Bool, r.cmd.toNat = (if flip then CMD_SCAN_CHAIN_FLIP_TMS else CMD_SCAN_CHAIN).value →
      Returns (vpi_scan d flip) s₁ fun _ t => ∃ cyc bytes, Performs s.jtag.state r cyc bytes t.jtag.state ∧
        Did A s l cyc bytes t := by
    intro flip hflip
    refine (vpi_scan_spec A h₁ hvalid (hbuf₁.trans (by rw [← hq])) flip).mono ?_
    rintro _ t ⟨hstate, cyc, recv, hrecv, hcycles, hholds, hd⟩
    rw [hjtag] at hstate hcycles
    refine ⟨cyc, (r.reply recv hrecv).bytes, ?_, hdid hd⟩
    rw [hstate]
    exact .scan flip hflip hcycles hholds
  split
  · exact hscan false (by assumption)
  split
  · exact hscan true (by assumption)
  rename_i hreset hseq hscan' hflip
  have hother : CMD_SCAN_CHAIN_FLIP_TMS.value < r.cmd.toNat := by
    simp only [JtagVpiCommand.value] at *
    omega
  obtain ⟨tms, hline⟩ : ∃ tms, l = ⟨l.log, tms, []⟩ := ⟨l.tms, by rw [← h.ready]⟩
  refine returns_pure ⟨[], [], ?_, rfl, ?_, tms, ?_⟩
  · rw [hjtag]
    exact .other hother
  · rw [hsock, List.append_nil]
  · rw [List.append_nil, ← hline]
    exact h₁

/-! ## A connection -/

theorem Did.refl (h : Serves A s l) : Did A s l [] [] s := by
  have hline : l = ⟨l.log, l.tms, []⟩ := by rw [← h.ready]
  refine ⟨rfl, (List.append_nil _).symm, l.tms, ?_⟩
  rw [List.append_nil, ← hline]
  exact h

theorem Did.trans {t u : Vpi δ} {cyc cyc' : List Cycle} {bytes bytes' : List Byte} {tms : Bool}
    (h : Did A s l cyc bytes t) (h' : Did A t ⟨l.log ++ cyc, tms, []⟩ cyc' bytes' u) :
    Did A s l (cyc ++ cyc') (bytes ++ bytes') u := by
  obtain ⟨tms', hserves⟩ := h'.serves
  refine ⟨h.ran.append h'.ran, ?_, tms', ?_⟩
  · rw [h'.written, h.written, List.append_assoc]
  · rw [← List.append_assoc]
    exact hserves

/-- The bytes that some reads bring; `n` bytes of a record are there already. -/
def received : Nat → List Net → List Byte
  | _, [] => []
  | n, net :: nets =>
    let got := net.recv.bytes.take (SIZEOF_CMD - n)
    got ++ received (if n + got.length = SIZEOF_CMD then 0 else n + got.length) nets

/-- A row of whole records, of which the first begins with `w`. -/
theorem head_record {w rest part : List Byte} {rs : List JtagVpiCmd} (hw : w.length = SIZEOF_CMD)
    (hpart : part.length < SIZEOF_CMD) (h : w ++ rest = rs.flatMap JtagVpiCmd.bytes ++ part) :
    ∃ r rs', rs = r :: rs' ∧ w = r.bytes ∧ rest = rs'.flatMap JtagVpiCmd.bytes ++ part := by
  cases rs with
  | nil =>
    have hlen := congrArg List.length h
    simp only [List.length_append, List.flatMap_nil, List.length_nil] at hlen
    omega
  | cons r rs =>
    rw [List.flatMap_cons, List.append_assoc] at h
    obtain ⟨hhead, htail⟩ := List.append_inj h (hw.trans r.bytes_length.symm)
    exact ⟨r, rs, rfl, hhead, htail⟩

theorem no_record {w part : List Byte} {rs : List JtagVpiCmd} (hw : w.length < SIZEOF_CMD)
    (h : w = rs.flatMap JtagVpiCmd.bytes ++ part) : rs = [] := by
  cases rs with
  | nil => rfl
  | cons r rs =>
    have hlen := congrArg List.length h
    rw [List.flatMap_cons, List.append_assoc, List.length_append, r.bytes_length] at hlen
    omega

theorem session_spec {nets : List Net} {p part : List Byte} {rs : List JtagVpiCmd} (hp : Waits s p)
    (h : Serves A s l) (hopen : ∀ net ∈ nets, net.recv ≠ .closed) (hvalid : ∀ r ∈ rs, r.Valid)
    (hin : p ++ received p.length nets = rs.flatMap JtagVpiCmd.bytes ++ part) (hpart : part.length < SIZEOF_CMD) :
    (session d s nets).2 = rs.map JtagVpiCmd.bytes ∧
      Returns (nets.forM (jtag_vpi_tick d)) s fun _ t => ∃ cyc replies,
        Plays s.jtag.state rs cyc replies t.jtag.state ∧ Did A s l cyc replies t := by
  induction nets generalizing s l p rs with
  | nil =>
    rw [received, List.append_nil] at hin
    obtain rfl := no_record hp.short hin
    exact ⟨rfl, returns_pure ⟨[], [], .nil _, .refl A h⟩⟩
  | cons net nets ih =>
    have hnets : ∀ net ∈ nets, net.recv ≠ .closed := fun net hnet => hopen net (List.mem_cons_of_mem _ hnet)
    rw [received, ← List.append_assoc] at hin
    generalize hw : p ++ net.recv.bytes.take (SIZEOF_CMD - p.length) = w at hin
    obtain ⟨hle, buffer, hsize, hheld, hexecuted, htick⟩ :=
      tick_read_eq (d := d) hp h.connected (hopen net List.mem_cons_self) hw.symm
    rw [← List.length_append, hw] at hin
    have hread : Serves A { s with jtag_vpi_buffer := buffer, jtag_vpi_recv := w.length } l :=
      ⟨h.connected, h.alive, h.stands, h.ready⟩
    by_cases hfull : w.length = SIZEOF_CMD
    · rw [if_pos hfull] at hin hexecuted htick
      obtain ⟨r, rs, rfl, rfl, hrest⟩ := head_record hfull hpart hin
      obtain rfl : buffer = r.bytes := by
        rw [← hheld, List.take_of_length_le (by omega)]
      obtain ⟨_, t, hrun, ⟨cyc, replies, hperforms, hdid⟩⟩ :=
        execute_spec A hread (hvalid r List.mem_cons_self) rfl
      have hdid' : Did A s l cyc replies t := ⟨hdid.ran, hdid.written, hdid.serves⟩
      have hframe := vpi_execute_frame (d := d) _ () t hrun
      simp only [frameOf, Prod.mk.injEq] at hframe
      obtain ⟨hcount, hlen, -⟩ := hframe
      have hwaits : Waits t [] := ⟨hlen.trans hsize, hcount, rfl, by decide⟩
      obtain ⟨tms, hserves⟩ := hdid.serves
      obtain ⟨hsession, hreturns⟩ := ih hwaits hserves hnets
        (fun r hr => hvalid r (List.mem_cons_of_mem _ hr)) hrest
      rw [hrun] at htick
      refine ⟨?_, ?_⟩
      · rw [session, htick, hexecuted]
        simp only [hsession, List.map_cons, List.singleton_append]
      · refine Returns.of_eq_bind htick (hreturns.mono ?_)
        rintro _ u ⟨cyc', replies', hplays, hdid''⟩
        exact ⟨cyc ++ cyc', replies ++ replies', .cons hperforms hplays, hdid'.trans A hdid''⟩
    · rw [if_neg hfull] at hin hexecuted htick
      have hwaits : Waits { s with jtag_vpi_buffer := buffer, jtag_vpi_recv := w.length } w :=
        ⟨hsize, rfl, hheld, by omega⟩
      obtain ⟨hsession, hreturns⟩ := ih hwaits hread hnets hvalid hin
      refine ⟨?_, ?_⟩
      · rw [session, htick, hexecuted]
        exact hsession
      · refine Returns.of_eq_bind htick (hreturns.mono ?_)
        rintro _ u ⟨cyc, replies, hplays, hdid⟩
        exact ⟨cyc, replies, hplays, ⟨hdid.ran, hdid.written, hdid.serves⟩⟩

/-- Until a client is let in. -/
theorem waiting_spec {waits : List Net} (hwaits : ∀ net ∈ waits, net.accept = false)
    (halone : ¬ s.sock.client_fd ≥ 0) (nets : List Net) :
    (session d s (waits ++ nets)).2 = (session d s nets).2 ∧
      (waits ++ nets).forM (jtag_vpi_tick d) s = nets.forM (jtag_vpi_tick d) s := by
  induction waits with
  | nil => exact ⟨rfl, rfl⟩
  | cons net waits ih =>
    obtain ⟨hsession, hrun⟩ := ih fun net hnet => hwaits net (List.mem_cons_of_mem _ hnet)
    have htick : jtag_vpi_tick d net s = .ok () s := by
      rw [tick_alone halone, hwaits net List.mem_cons_self]
      rfl
    refine ⟨?_, ?_⟩
    · rw [List.cons_append, session, htick, executed, if_neg halone]
      exact hsession
    · exact (bind_of_ok htick).trans hrun

/-- A client whose bytes are some records, and maybe the beginning of one more, has just these executed, each
with its last byte, and gets the replies of the scans. -/
theorem vpi_answers_every_command (hnone : Waits s []) (halone : ¬ s.sock.client_fd ≥ 0)
    (hA : A.Stands s.jtag.state s.jtag.dev l) (hready : l.pending = []) {waits nets : List Net} {recv : Recv}
    (hwaits : ∀ net ∈ waits, net.accept = false) (hopen : ∀ net ∈ nets, net.recv ≠ .closed)
    {rs : List JtagVpiCmd} {part : List Byte} (hvalid : ∀ r ∈ rs, r.Valid)
    (hin : received 0 nets = rs.flatMap JtagVpiCmd.bytes ++ part) (hpart : part.length < SIZEOF_CMD) :
    (session d s (waits ++ ⟨recv, true⟩ :: nets)).2 = rs.map JtagVpiCmd.bytes ∧
      Returns ((waits ++ ⟨recv, true⟩ :: nets).forM (jtag_vpi_tick d)) s fun _ t => ∃ cyc replies,
        Plays s.jtag.state rs cyc replies t.jtag.state ∧ board.Ran l.log cyc ∧
        t.sock.written = s.sock.written ++ replies ∧
        ∃ tms, A.Stands t.jtag.state t.jtag.dev ⟨l.log ++ cyc, tms, []⟩ := by
  obtain ⟨hsession, hrun⟩ := waiting_spec (d := d) hwaits halone (⟨recv, true⟩ :: nets)
  have hserves : Serves A (admitted s) l := ⟨(by decide : (4 : Int) ≥ 0), rfl, hA, hready⟩
  have hwaiting : Waits (admitted s) [] := ⟨hnone.size, hnone.count, hnone.held, hnone.short⟩
  have hin' : [] ++ received ([] : List Byte).length nets = rs.flatMap JtagVpiCmd.bytes ++ part := hin
  obtain ⟨hrecords, hreturns⟩ := session_spec A hwaiting hserves hopen hvalid hin' hpart
  refine ⟨?_, ?_⟩
  · rw [hsession, session, tick_admits halone, executed, if_neg halone]
    exact hrecords
  · rw [Returns, hrun]
    refine Returns.of_eq_bind (tick_admits halone recv) (hreturns.mono ?_)
    rintro _ t ⟨cyc, replies, hplays, hdid⟩
    obtain ⟨tms, ht⟩ := hdid.serves
    exact ⟨cyc, replies, hplays, hdid.ran, hdid.written, tms, ht.stands⟩

end

/-- A read of eight bits, all of them with TMS low. -/
def scanByte : JtagVpiCmd where
  cmd := 2
  buffer_out := List.replicate 512 0xA5
  buffer_in := List.replicate 512 0
  length := 1
  nb_bits := 8
  out_size := List.length_replicate
  in_size := List.length_replicate

/-- It comes in two parts, the second together with the beginning of another record. -/
def inTwoReads : List Net :=
  [⟨deliver (scanByte.bytes.take 1000), false⟩, ⟨deliver (scanByte.bytes.drop 1000), false⟩, ⟨deliver [2], false⟩]

theorem vpi_answers_every_command_scan :
    (session (mpsse_driver (mpsseUsb Mpsse.blinkBoard Mpsse.idleEngine) (100 + 0) 15) (bootVpi (benchMpsse ShiftDR))
      ([⟨.failed, false⟩] ++ ⟨.failed, true⟩ :: inTwoReads)).2 = [scanByte].map JtagVpiCmd.bytes ∧
    Returns (([⟨.failed, false⟩] ++ ⟨.failed, true⟩ :: inTwoReads : List Net).forM
        (jtag_vpi_tick (mpsse_driver (mpsseUsb Mpsse.blinkBoard Mpsse.idleEngine) (100 + 0) 15)))
      (bootVpi (benchMpsse ShiftDR)) fun _ t => ∃ cyc replies, Plays ShiftDR [scanByte] cyc replies t.jtag.state ∧
        Mpsse.blinkBoard.Ran [] cyc ∧ t.sock.written = [] ++ replies ∧
        ∃ tms, (benchMpsseAdapter Mpsse.blinkBoard).Stands t.jtag.state t.jtag.dev ⟨[] ++ cyc, tms, []⟩ := by
  have hdel := mpsseUsb_delivers Mpsse.blinkBoard Mpsse.idleEngine
  have hin : received 0 inTwoReads = [scanByte].flatMap JtagVpiCmd.bytes ++ [2] := by decide +kernel
  have hvalid : ∀ r ∈ [scanByte], r.Valid := by
    simp only [List.mem_singleton, forall_eq]
    exact ⟨by decide, by decide⟩
  have hopen : ∀ net ∈ inTwoReads, net.recv ≠ .closed := by
    simp only [inTwoReads, List.mem_cons, List.not_mem_nil, or_false, forall_eq_or_imp, forall_eq]
    exact ⟨deliver_open _, deliver_open _, deliver_open _⟩
  exact vpi_answers_every_command (Mpsse.mpsseScanner Mpsse.blinkBoard _ Mpsse.idleEngine 0 15 hdel)
    (s := bootVpi (benchMpsse ShiftDR)) (l := ⟨[], false, []⟩) (boot_waits _) (by decide)
    (benchMpsse_stands Mpsse.blinkBoard ShiftDR) rfl (by decide) hopen hvalid hin (by decide)

end JtagRemote.Vpi
