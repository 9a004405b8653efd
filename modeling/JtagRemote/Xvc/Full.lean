import JtagRemote.Stream
import JtagRemote.Xvc.Window

/-!
# Shifts that the window cannot hold

The info string tells the client that a vector may have 2048 bytes. The two vectors of
a shift do not fit the window then, and the server neither reads nor consumes.
-/

namespace JtagRemote.Xvc

variable {δ : Type} {s : Xvc δ}

/-! ## The server from its start -/

def bootXvc (c : Jtag δ) : Xvc δ where
  jtag := c
  sock := bootSock
  tms := List.replicate BUFFER_SIZE 0
  tdi := List.replicate BUFFER_SIZE 0
  tdo := List.replicate BUFFER_SIZE 0

theorem tick_connected {d : driver δ} {net : Net} (h : s.sock.client_fd ≥ 0) :
    jtag_xvc_tick d net s = (do
      if ← xvc_sock (read_socket net.recv) then
        let shift_commands ← xvc_parse d (BUFFER_SIZE + 1) []
        shift_commands.forM (xvc_read_back d)
      else pure ()) s := by
  unfold jtag_xvc_tick
  rw [bind_of_ok (get_apply _)]
  exact congrFun (if_pos h) _

theorem tick_alone {d : driver δ} {net : Net} (h : ¬ s.sock.client_fd ≥ 0) :
    jtag_xvc_tick d net s = (do
      let _ ← xvc_sock (try_accept net.accept)
      pure ()) s := by
  unfold jtag_xvc_tick
  rw [bind_of_ok (get_apply _)]
  exact congrFun (if_neg h) _

theorem xvc_sock_ok {α : Type} {p : EStateM Fault Sock α} {a : α} {k : Sock} (hp : p s.sock = .ok a k) :
    xvc_sock p s = .ok a { s with sock := k } := by
  unfold xvc_sock focus
  rw [hp]

theorem tick_sock_ok (d : driver δ) (net : Net) (h : s.sock.Ok) :
    Ensures (jtag_xvc_tick d net) s fun _ t => t.sock.Ok := by
  by_cases hfd : s.sock.client_fd ≥ 0
  · rw [Ensures, tick_connected hfd]
    refine Ensures.bind (xvc_sock_spec (h.read_socket_ok net.recv).ensures) ?_
    rintro r _ ⟨k, ⟨hk, -⟩, rfl⟩
    refine ensures_ite (fun _ => ?_) fun _ => ensures_pure hk
    refine Ensures.bind (xvc_parse_splits d (s := { s with sock := k }) hk _ _) ?_
    rintro cs t ⟨ht, -⟩
    exact (read_backs_sock d cs t).mono fun _ u hu => ht.of_written hu
  · rw [Ensures, tick_alone hfd]
    have haccept : Ensures (try_accept net.accept) s.sock fun _ k => k.Ok := by
      unfold try_accept
      refine ensures_ite (fun _ => Ensures.modify_bind (ensures_pure ?_)) fun _ => ensures_pure h
      exact ⟨h.size, h.order, h.bound⟩
    refine Ensures.bind (xvc_sock_spec haccept) ?_
    rintro r _ ⟨k, hk, rfl⟩
    exact ensures_pure hk

theorem reaches_ok {d : driver δ} {c : Jtag δ} (h : Reaches (jtag_xvc_tick d) (bootXvc c) s) : s.sock.Ok :=
  h.invariant bootSock_ok fun net _ ht => tick_sock_ok d net ht

/-! ## Stuck -/

/-- The window is full with the beginning of the unit `u`, and nothing is consumed. -/
structure Stuck (d : driver δ) (s : Xvc δ) (u : List Byte) : Prop where
  clogged : s.sock.Clogged u
  waits : ∃ cs t, xvc_parse d (BUFFER_SIZE + 1) [] s = .ok cs t ∧ t.sock = s.sock

/-- A shift with vectors of the size that the info string allows. -/
structure Legal where
  bits : Nat
  tms : List Byte
  tdi : List Byte
  advertised : (bits + 7) / 8 ≤ 2048
  tms_length : tms.length = (bits + 7) / 8
  tdi_length : tdi.length = (bits + 7) / 8

def Legal.bytes (sh : Legal) : List Byte :=
  SHIFT ++ (le_bytes (BitVec.ofNat 32 sh.bits) ++ (sh.tms ++ sh.tdi))

theorem Legal.bytes_length (sh : Legal) : sh.bytes.length = SHIFT.length + 4 + 2 * ((sh.bits + 7) / 8) := by
  simp only [Legal.bytes, List.length_append, le_bytes_length, sh.tms_length, sh.tdi_length]
  omega

theorem Legal.next (sh : Legal) : framer.next sh.bytes = some sh.bytes.length := by
  have hadvertised := sh.advertised
  have hlen := sh.bytes_length
  have hsix : SHIFT.length = 6 := rfl
  have hpre : SHIFT <+: sh.bytes := List.prefix_append _ _
  have hdrop : sh.bytes.drop SHIFT.length = le_bytes (BitVec.ofNat 32 sh.bits) ++ (sh.tms ++ sh.tdi) :=
    List.drop_left
  have hbits : le32 (sh.bytes.drop SHIFT.length) = sh.bits := by
    rw [hdrop, le32_le_bytes, BitVec.toNat_ofNat]
    omega
  have htotal : shift_total_len sh.bits = sh.bytes.length := by
    rw [hlen]
    unfold shift_total_len shift_bytes
    omega
  show nextLen sh.bytes = _
  unfold nextLen
  rw [if_neg (starts_not_getinfo (Or.inr hpre)), if_neg (fun h => starts_not_settck hpre h.1), hbits, htotal,
    if_pos ⟨hpre, by omega, Nat.le_refl _⟩]

/-- The shift is played: its vectors go out region by region, and it is left to be read back. -/
def Legal.play (sh : Legal) (d : driver δ) : XvcProg δ ShiftCommand := do
  let s ← get
  let tms ← memcpy s.tms 0 sh.tms
  let tdi ← memcpy s.tdi 0 sh.tdi
  modify fun s => { s with tms := tms, tdi := tdi }
  xvc_consume sh.bytes.length
  let (regions, cur_state) ← analyze_bitbang s.jtag.state tms sh.bits
  regions.forM (xvc_region d sh.bits)
  let s ← get
  assert (decide (cur_state = s.jtag.state))
  pure ⟨sh.bits, sh.tms.length, regions⟩

/-- A tick in which a client sends these bytes. -/
def receives (d : driver δ) (piece : List Byte) : XvcProg δ Unit := jtag_xvc_tick d ⟨deliver piece, false⟩

/-- The bytes come in, the shift is there as a whole, and the tick plays it and answers it. -/
structure PlaysShift (d : driver δ) (sh : Legal) (piece : List Byte) (s : Xvc δ) : Prop where
  played : ∃ k, read_socket (deliver piece) s.sock = .ok true k ∧ k.window = sh.bytes ∧
    receives d piece s = (do let c ← sh.play d; xvc_read_back d c) { s with sock := k }
  gone : ∀ t, receives d piece s = .ok () t → t.sock.window = []

/-- The server never gets stuck in a shift of this size, and handles it once all of it came in, if nothing else is
pending. -/
structure Processed (d : driver δ) (c : Jtag δ) {n : Nat} (cut : Cut n) : Prop where
  never_stuck : ∀ (sh : Legal) s, sh.bytes.length = n → Reaches (jtag_xvc_tick d) (bootXvc c) s → ¬ Stuck d s sh.bytes
  handled : ∀ (sh : Legal) s, sh.bytes.length = n → Reaches (jtag_xvc_tick d) (bootXvc c) s → s.sock.client_fd ≥ 0 →
    s.sock.window = [] →
    InPieces (fun piece s t => receives d piece s = .ok () t) (PlaysShift d sh) (cut.pieces sh.bytes) s

variable {d : driver δ} {c : Jtag δ}

theorem not_stuck (h : s.sock.Ok) (sh : Legal) (hfits : sh.bytes.length ≤ BUFFER_SIZE) :
    ¬ Stuck d s sh.bytes := by
  intro hs
  obtain ⟨hwin, hne⟩ := hs.clogged.whole h hfits
  obtain ⟨cs, t, hrun, hsock⟩ := hs.waits
  have hempty := (xvc_parse_takes d h sh.next hwin _ _ cs t hrun).2
  rw [hsock] at hempty
  exact hne hempty

theorem tick_takes (h : s.sock.Ok) (sh : Legal) {net : Net} {k : Sock} {t : Xvc δ}
    (hfd : s.sock.client_fd ≥ 0) (hread : read_socket net.recv s.sock = .ok true k) (hwin : k.window = sh.bytes)
    (hrun : jtag_xvc_tick d net s = .ok () t) : t.sock.window = [] := by
  have hk : k.Ok := ((h.read_socket_ok net.recv).ensures true k hread).1
  have htick : Ensures (jtag_xvc_tick d net) s fun _ t => t.sock.window = [] := by
    rw [Ensures, tick_connected hfd]
    refine Ensures.of_eq_bind (xvc_sock_ok hread) ?_
    refine Ensures.bind (xvc_parse_takes d (s := { s with sock := k }) hk sh.next hwin _ _) ?_
    rintro cs t ⟨-, ht⟩
    refine (read_backs_sock d cs t).mono fun _ u hu => ?_
    rw [hu]
    exact ht
  exact htick () t hrun

theorem Legal.shift (sh : Legal) : SHIFT <+: sh.bytes ∧ SHIFT.length + 4 ≤ sh.bytes.length ∧
    le32 (sh.bytes.drop SHIFT.length) = sh.bits ∧ shift_total_len sh.bits = sh.bytes.length := by
  have hadvertised := sh.advertised
  have hlen := sh.bytes_length
  have hdrop : sh.bytes.drop SHIFT.length = le_bytes (BitVec.ofNat 32 sh.bits) ++ (sh.tms ++ sh.tdi) :=
    List.drop_left
  refine ⟨List.prefix_append _ _, by omega, ?_, ?_⟩
  · rw [hdrop, le32_le_bytes, BitVec.toNat_ofNat]
    omega
  · have hsix : SHIFT.length = 6 := rfl
    rw [hlen]
    unfold shift_total_len shift_bytes
    omega

/-- A shift that is there as a whole is played. -/
theorem shift_plays (h : s.sock.Ok) (sh : Legal) (hwin : s.sock.window = sh.bytes) :
    xvc_shift d s = (do let c ← sh.play d; pure (some c)) s := by
  obtain ⟨-, hten, hbits, htotal⟩ := sh.shift
  have hlen := sh.bytes_length
  have hwlen := h.window_length
  have horder := h.order
  have hadvertised := sh.advertised
  have hbytes : shift_bytes sh.bits = sh.tms.length := by
    rw [shift_bytes, sh.tms_length]
    omega
  have hfour : le32 ((s.sock.window.drop SHIFT.length).take 4) = sh.bits := by
    rw [← hbits, hwin, le32, le32, List.take_take]
    rfl
  have htms : ((s.sock.window.drop (SHIFT.length + 4)).take sh.tms.length) = sh.tms := by
    rw [hwin, Legal.bytes, ← List.append_assoc, List.drop_left' (by rw [List.length_append, le_bytes_length]), List.take_left]
  have htdi : ((s.sock.window.drop (SHIFT.length + 4 + sh.tms.length)).take sh.tms.length) = sh.tdi := by
    rw [hwin, Legal.bytes, ← List.append_assoc, ← List.append_assoc, List.drop_left' (by simp only [List.length_append, le_bytes_length]),
      List.take_of_length_le (by rw [sh.tdi_length, sh.tms_length])]
  have hread : ∀ {off : Nat}, off + sh.tms.length ≤ s.sock.window.length → ∀ t : Xvc δ,
      (bytes_at s.sock.buffer (s.sock.buffer_begin + off) sh.tms.length : XvcProg δ (List Byte)) t =
        .ok ((s.sock.window.drop off).take sh.tms.length) t := fun hoff t => h.bytes_at_window hoff t
  have htmsLen := sh.tms_length
  rw [hwin] at hwlen
  unfold xvc_shift Legal.play
  rw [bind_of_ok (get_apply s), bind_of_ok (h.bytes_at_window (by rw [hwin]; exact hten) s), hfour, htotal, hbytes,
    if_neg (by omega), Nat.add_assoc s.sock.buffer_begin, bind_of_ok (hread (by rw [hwin]; omega) s), htms]
  simp only [bind_assoc, pure_bind]
  rw [bind_of_ok (get_apply s)]
  cases hcopy : (memcpy s.tms 0 sh.tms : XvcProg δ (List Byte)) s with
  | error e t => rw [bind_of_error hcopy, bind_of_error hcopy]
  | ok tms t =>
    obtain ⟨rfl, -, -⟩ := memcpy_spec s.tms 0 sh.tms s tms t hcopy
    rw [bind_of_ok hcopy, bind_of_ok hcopy, Nat.add_assoc t.sock.buffer_begin,
      bind_of_ok (hread (by rw [hwin]; omega) t), htdi]

/-- The window is the shift: it is played, and nothing else. -/
theorem parse_plays (h : s.sock.Ok) (sh : Legal) (hwin : s.sock.window = sh.bytes) (fuel : Nat) :
    xvc_parse d (fuel + 2) [] s = (do let c ← sh.play d; pure [c]) s := by
  obtain ⟨hpre, hten, hbits, htotal⟩ := sh.shift
  have hshift := shift_plays (d := d) h sh hwin
  have htakes := xvc_shift_takes d h (by rw [hwin]; exact hten) (by rw [hwin, hbits, htotal])
  rw [parse_shift h (hwin ▸ hpre) (hwin ▸ hten)]
  cases hplay : sh.play d s with
  | error e t =>
    rw [bind_of_error hplay] at hshift
    rw [bind_of_error hshift, bind_of_error hplay]
  | ok c t =>
    rw [bind_of_ok hplay, pure_apply] at hshift
    rw [bind_of_ok hshift, bind_of_ok hplay]
    obtain ⟨-, hsock⟩ := htakes _ _ hshift
    have hle : shift_total_len (le32 (s.sock.window.drop SHIFT.length)) ≤ s.sock.window.length := by
      rw [hwin, hbits, htotal]
    have hok : t.sock.Ok := by
      rw [hsock]
      exact h.consume hle
    have hnone : nextLen t.sock.window = none := by
      rw [hsock, Sock.window_consume, hwin, hbits, htotal, List.drop_length]
      exact framer.next_nil
    exact parse_stop hok hnone

/-- In one piece, the shift is handled. -/
theorem handled_whole (h : s.sock.Ok) (sh : Legal) (hfits : sh.bytes.length ≤ BUFFER_SIZE) (hfd : s.sock.client_fd ≥ 0)
    (hempty : s.sock.window = []) : PlaysShift d sh sh.bytes s := by
  obtain ⟨k, hread, hwin⟩ := h.read_empty hempty (deliver_open sh.bytes)
  rw [bytes_deliver, List.take_of_length_le hfits] at hwin
  have hk : k.Ok := (h.read_adds hread).1
  refine ⟨⟨k, hread, hwin, ?_⟩, fun t hrun => tick_takes h sh hfd hread hwin hrun⟩
  have hparse := parse_plays (d := d) (s := { s with sock := k }) hk sh hwin (BUFFER_SIZE - 1)
  rw [receives, tick_connected hfd]
  refine (bind_of_ok (xvc_sock_ok hread)).trans ?_
  cases hplay : sh.play d { s with sock := k } with
  | error e t =>
    rw [bind_of_error hplay] at hparse ⊢
    exact bind_of_error hparse
  | ok c t =>
    rw [bind_of_ok hplay, pure_apply] at hparse
    rw [bind_of_ok hplay]
    refine (bind_of_ok hparse).trans ?_
    have hone : (do xvc_read_back d c; pure ⟨⟩ : XvcProg δ Unit) = xvc_read_back d c := bind_pure_unit
    exact congrFun hone t

/-- A tick adds what comes in to the window, at most. -/
theorem tick_window (h : s.sock.Ok) {piece : List Byte} {t : Xvc δ} (hrun : receives d piece s = .ok () t) :
    t.sock.Ok ∧ t.sock.window.length ≤ s.sock.window.length + piece.length := by
  refine ⟨tick_sock_ok d _ h () t hrun, ?_⟩
  rw [receives] at hrun
  by_cases hfd : s.sock.client_fd ≥ 0
  · rw [tick_connected hfd] at hrun
    obtain ⟨r, k, hread, -⟩ := h.read_socket_ok (deliver piece)
    rw [bind_of_ok (xvc_sock_ok hread)] at hrun
    cases r with
    | false => exact absurd (((h.read_socket_ok (deliver piece)).ensures false k hread).2.2.2.2 rfl) (deliver_open piece)
    | true =>
      obtain ⟨hk, -, hgrows⟩ := h.read_adds hread
      rw [Sock.arrived, bytes_deliver, List.length_take] at hgrows
      have hserves : Ensures (do
            let shift_commands ← xvc_parse d (BUFFER_SIZE + 1) []
            shift_commands.forM (xvc_read_back d) : XvcProg δ Unit)
          { s with sock := k } fun _ t => t.sock.window.length ≤ k.window.length := by
        refine Ensures.bind (xvc_parse_splits d (s := { s with sock := k }) hk _ _) ?_
        rintro cs q ⟨-, us, hsplits⟩
        have hflat := congrArg List.length hsplits.flatten
        rw [List.length_append] at hflat
        have hle : q.sock.window.length ≤ k.window.length := by
          show _ ≤ (({ s with sock := k } : Xvc δ).sock.window).length
          omega
        refine (read_backs_sock d cs q).mono fun _ u hu => ?_
        rw [hu]
        exact hle
      have hle := hserves () t hrun
      omega
  · rw [tick_alone hfd] at hrun
    cases hrun
    exact Nat.le_add_right _ _

/-- A shift of the same size whose first byte does not come again. -/
theorem Legal.headed (sh : Legal) : ∃ (sh' : Legal) (a : Byte) (l : List Byte), sh'.bytes = a :: l ∧ a ∉ l ∧
    sh'.bytes.length = sh.bytes.length := by
  have hadvertised := sh.advertised
  have hround : (8 * ((sh.bits + 7) / 8) + 7) / 8 = (sh.bits + 7) / 8 := by omega
  let w : BitVec 32 := BitVec.ofNat 32 (8 * ((sh.bits + 7) / 8))
  have hw : w.toNat = 8 * ((sh.bits + 7) / 8) := by
    rw [BitVec.toNat_ofNat]
    omega
  have hbyte : ∀ i : Nat, ((w >>> (8 * i)).setWidth 8 : Byte) ≠ 0x73 := by
    intro i heq
    have hnat := congrArg BitVec.toNat heq
    rw [BitVec.toNat_setWidth, BitVec.toNat_ushiftRight, Nat.shiftRight_eq_div_pow, hw] at hnat
    have hs : (0x73 : Byte).toNat = 115 := rfl
    rw [hs] at hnat
    match i with
    | 0 => omega
    | 1 => omega
    | i + 2 =>
      have hbig : 2 ^ 16 ≤ 2 ^ (8 * (i + 2)) := Nat.pow_le_pow_right (by decide) (by omega)
      rw [Nat.div_eq_of_lt (by omega)] at hnat
      cases hnat
  refine ⟨⟨8 * ((sh.bits + 7) / 8), List.replicate ((sh.bits + 7) / 8) 0, List.replicate ((sh.bits + 7) / 8) 0,
    by omega, by rw [hround, List.length_replicate], by rw [hround, List.length_replicate]⟩, 0x73,
    ascii ['h', 'i', 'f', 't', ':'] ++ (le_bytes w ++ (List.replicate ((sh.bits + 7) / 8) 0 ++
      List.replicate ((sh.bits + 7) / 8) 0)), rfl, ?_, ?_⟩
  · have hzeros : (0x73 : Byte) ∉ List.replicate ((sh.bits + 7) / 8) 0 := fun h =>
      absurd (List.eq_of_mem_replicate h) (by decide)
    have hbits : (0x73 : Byte) ∉ le_bytes w := by
      simp only [le_bytes, List.mem_cons, List.not_mem_nil, or_false, not_or]
      exact ⟨fun h => hbyte 0 h.symm, fun h => hbyte 1 h.symm, fun h => hbyte 2 h.symm, fun h => hbyte 3 h.symm⟩
    simp only [List.mem_append, not_or]
    exact ⟨by decide, hbits, hzeros, hzeros⟩
  · rw [Legal.bytes_length, Legal.bytes_length, hround]

/-! ## How it gets stuck -/

theorem waiting_reached (d : driver δ) (c : Jtag δ) : ∃ s, Reaches (jtag_xvc_tick d) (bootXvc c) s ∧
    s.sock.Ok ∧ s.sock.client_fd ≥ 0 ∧ s.sock.window = [] := by
  have halone : ¬ (bootXvc c).sock.client_fd ≥ 0 := Int.not_le.mpr (by decide : (-1 : Int) < 0)
  have haccept : try_accept true bootSock = .ok true { bootSock with client_fd := 4, alive := true } := rfl
  have hrun : jtag_xvc_tick d ⟨.failed, true⟩ (bootXvc c) =
      .ok () { bootXvc c with sock := { bootSock with client_fd := 4, alive := true } } := by
    rw [tick_alone halone]
    exact bind_of_ok (xvc_sock_ok (s := bootXvc c) haccept)
  have hwindow : bootSock.window = [] := rfl
  refine ⟨_, .tick (.refl _) hrun, ⟨bootSock_ok.size, bootSock_ok.order, bootSock_ok.bound⟩, ?_, hwindow⟩
  exact (by decide : (4 : Int) ≥ 0)

/-- With no command complete, a tick does nothing. -/
theorem tick_waits {net : Net} {k : Sock} (hfd : s.sock.client_fd ≥ 0)
    (hread : read_socket net.recv s.sock = .ok true k) (hk : k.Ok) (hnone : framer.next k.window = none) :
    jtag_xvc_tick d net s = .ok () { s with sock := k } := by
  have hparse := @parse_stop _ d { s with sock := k } [] BUFFER_SIZE hk hnone
  rw [tick_connected hfd]
  exact (bind_of_ok (xvc_sock_ok hread)).trans (bind_of_ok hparse)

/-- The next read fills the window, and no shift in it is complete. -/
theorem stuck_reached (d : driver δ) (c : Jtag δ) (sh : Legal) (hlong : BUFFER_SIZE < sh.bytes.length) :
    ∃ s, Reaches (jtag_xvc_tick d) (bootXvc c) s ∧ Stuck d s sh.bytes ∧
      ∀ t, Reaches (jtag_xvc_tick d) s t → t.sock = s.sock := by
  obtain ⟨s, hreach, hok, hconnected, hempty⟩ := waiting_reached d c
  obtain ⟨k, hread, hk, hfd, hstart, hfull, hwin⟩ := hok.read_fills hempty hlong
  have hnone : framer.next k.window = none := by
    rw [hwin]
    exact Framer.next_take sh.next hlong
  have hrun := @tick_waits _ _ d ⟨deliver sh.bytes, false⟩ _ hconnected hread hk hnone
  have hclogged : k.Clogged sh.bytes := by
    refine ⟨by rw [hfd]; exact hconnected, hstart, hfull, ?_⟩
    rw [hwin]
    exact List.take_prefix _ _
  have hparse := @parse_stop _ d { s with sock := k } [] BUFFER_SIZE hk hnone
  refine ⟨_, .tick hreach hrun, ⟨hclogged, _, _, hparse, rfl⟩, fun t hlater => ?_⟩
  refine hlater.invariant (P := fun t => t.sock = k) rfl ?_
  rintro net t rfl _ u hu
  rw [tick_waits hclogged.connected (hclogged.unread net.recv) hk hnone] at hu
  cases hu
  rfl

theorem processed_iff (d : driver δ) (c : Jtag δ) (sh : Legal) (cut : Cut sh.bytes.length) :
    Processed d c cut ↔ sh.bytes.length ≤ BUFFER_SIZE ∧ cut.parts.length = 1 := by
  constructor
  · intro h
    refine ⟨?_, ?_⟩
    · by_contra hlong
      obtain ⟨s, hreach, hstuck, -⟩ := stuck_reached d c sh (by omega)
      exact h.never_stuck sh s rfl hreach hstuck
    · obtain ⟨sh', a, l, hbytes, hnot, hlen⟩ := sh.headed
      obtain ⟨s, hreach, hok, hconnected, hempty⟩ := waiting_reached d c
      have hhandles := h.handled sh' s hlen hreach hconnected hempty
      have hflat : (cut.pieces sh'.bytes).flatten = sh'.bytes := cut.flatten_pieces hlen
      have hwhole : ∀ piece (s : Xvc δ), PlaysShift d sh' piece s →
          ∃ k, read_socket (deliver piece) s.sock = .ok true k ∧ k.window = sh'.bytes := by
        rintro piece s ⟨⟨k, hread, hwin, -⟩, -⟩
        exact ⟨k, hread, hwin⟩
      obtain ⟨front, last, hpieces, hlast⟩ := hhandles.last Xvc.sock hwhole
        (fun piece s t hok hrun => tick_window hok hrun) hok (by rw [hempty, hflat, List.length_nil, Nat.zero_add])
      rw [hbytes] at hpieces hlast hlen
      exact cut.alone hlen hnot hpieces hlast
  · rintro ⟨hfits, hone⟩
    refine ⟨fun sh' s hlen hreach => not_stuck (reaches_ok hreach) sh' (hlen.trans_le hfits), ?_⟩
    intro sh' s hlen hreach hfd hempty
    rw [cut.whole hone hlen]
    exact handled_whole (reaches_ok hreach) sh' (hlen.trans_le hfits) hfd hempty

end JtagRemote.Xvc
