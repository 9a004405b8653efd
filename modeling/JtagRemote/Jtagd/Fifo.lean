import JtagRemote.Jtagd.Packets

/-!
# The FIFO

It should be a queue of bytes: packets with mux 4 put their bodies at its end, and
messages take bytes from its front.
-/

namespace JtagRemote.Jtagd

variable {δ : Type}

/-! ## Packets and pops -/

/-- A packet that is complete in the receive buffer, with its header already taken off. -/
structure Packet where
  sock : Sock
  mux : Nat
  length : Nat
  ok : sock.Ok
  header : 2 ≤ sock.buffer_begin
  pos : 1 ≤ length
  fits : length ≤ sock.window.length

def Packet.body (p : Packet) : List Byte := p.sock.window.take p.length

/-- What happens to the FIFO: a packet comes in, or a message takes `n` bytes and sees an answer. -/
inductive Act where
  | packet (p : Packet)
  | pop (n : Nat) (ok : Bool) (out : List Byte)

/-- The acts that the code can go through; the connection may be at any place when a packet is there. -/
inductive Run : Jtagd δ → List Act → Jtagd δ → Prop
  | nil (s : Jtagd δ) : Run s [] s
  | packet {s t u : Jtagd δ} {acts : List Act} (p : Packet) :
      handle_packet p.mux p.length { s with sock := p.sock } = .ok () t → Run t acts u →
      Run s (.packet p :: acts) u
  | pop {s t u : Jtagd δ} {acts : List Act} {n : Nat} {ok : Bool} {out : List Byte} :
      pop_fifo (List.replicate n 0) n s = .ok (ok, out) t → Run t acts u → Run s (.pop n ok out :: acts) u

/-- The bodies of the packets for the FIFO. -/
def received : List Act → List Byte
  | [] => []
  | .packet p :: acts => (if p.mux = FIFO_MIN then p.body else []) ++ received acts
  | .pop _ _ _ :: acts => received acts

/-- What the successful pops gave. -/
def delivered : List Act → List Byte
  | [] => []
  | .packet _ :: acts => delivered acts
  | .pop _ ok out :: acts => (if ok then out else []) ++ delivered acts

/-- The packets of a run. -/
def packetsOf : List Act → List Packet
  | [] => []
  | .packet p :: acts => p :: packetsOf acts
  | .pop _ _ _ :: acts => packetsOf acts

/-- The acts are those of a byte queue: what comes out is what went in, in order, and a pop
succeeds just if enough bytes are there. -/
structure IsQueue (acts : List Act) : Prop where
  prefix_ : delivered acts <+: received acts
  success : ∀ before n ok out after, acts = before ++ .pop n ok out :: after →
    (ok = true ↔ (delivered before).length + n ≤ (received before).length)

/-! ## What the code does -/

/-- What a packet adds to the FIFO: copies of one number, as many as its position says. -/
def pushed (p : Packet) : List (BitVec 32) :=
  if p.mux = FIFO_MIN then
    List.replicate p.sock.buffer_begin (BitVec.ofNat 32 (p.sock.buffer_begin + p.length))
  else []

theorem parse_messages_fifos (stop fuel p : Nat) (s : Jtagd δ) :
    Ensures (parse_messages stop fuel p) s fun _ t => t.fifos = s.fifos := by
  induction fuel generalizing p s with
  | zero =>
    unfold parse_messages
    split
    · exact ensures_throw
    · exact ensures_pure rfl
  | succ fuel ih =>
    unfold parse_messages
    split
    · refine Ensures.get_bind ?_
      refine Ensures.bind (index_spec _ _ s) ?_
      rintro command _ ⟨rfl, -, -⟩
      refine Ensures.bind (index_spec _ _ _) ?_
      rintro hi _ ⟨rfl, -, -⟩
      refine Ensures.bind (index_spec _ _ _) ?_
      rintro lo _ ⟨rfl, -, -⟩
      refine Ensures.bind (bytes_at_spec _ _ _ _) ?_
      rintro bytes _ ⟨rfl, -, -⟩
      split
      · exact ensures_pure rfl
      · exact Ensures.set_bind (ih _ _)
    · exact ensures_pure rfl

theorem handle_packet_fifo (p : Packet) (s : Jtagd δ) :
    Ensures (handle_packet p.mux p.length) { s with sock := p.sock } fun _ t =>
      t.fifos FIFO_MIN = s.fifos FIFO_MIN ++ pushed p := by
  unfold handle_packet
  refine Ensures.get_bind ?_
  split
  · rename_i hmux
    have hnot : ¬ p.mux = FIFO_MIN := by
      unfold FIFO_MIN
      omega
    refine (parse_messages_fifos _ _ _ _).mono ?_
    intro _ t ht
    rw [ht, pushed, if_neg hnot, List.append_nil]
  · split
    · refine ensures_modify ?_
      by_cases hmux : p.mux = FIFO_MIN
      · simp [pushed, hmux]
      · simp [pushed, hmux, Function.update_of_ne (Ne.symm hmux)]
    · rename_i hlow
      have hnot : ¬ p.mux = FIFO_MIN := by
        unfold FIFO_MIN
        omega
      refine ensures_pure ?_
      rw [pushed, if_neg hnot, List.append_nil]

theorem pop_fifo_ok {n : Nat} {s : Jtagd δ} (hsome : 0 < (s.fifos FIFO_MIN).length)
    (h : n ≤ (s.fifos FIFO_MIN).length) :
    pop_fifo (List.replicate n 0) n s =
      .ok (true, ((s.fifos FIFO_MIN).flatMap le_bytes).take n)
        { s with fifos := Function.update s.fifos FIFO_MIN ((s.fifos FIFO_MIN).drop n) } := by
  have hbytes : n ≤ ((s.fifos FIFO_MIN).flatMap le_bytes).length := by
    rw [List.length_flatMap]
    simp [le_bytes]
    omega
  have hlen : (((s.fifos FIFO_MIN).flatMap le_bytes).take n).length = n := by
    rw [List.length_take]
    omega
  unfold pop_fifo
  rw [bind_of_ok (get_apply s), if_pos h, bind_of_ok (first_element_ok hsome s),
    bind_of_ok (memcpy_ok (by rw [hlen, List.length_replicate]; omega) s), splice_replicate, hlen,
    Nat.sub_self, List.replicate_zero, List.append_nil]
  rfl

theorem pop_fifo_fails {n : Nat} {s : Jtagd δ} (buffer : List Byte) (h : ¬ n ≤ (s.fifos FIFO_MIN).length) :
    pop_fifo buffer n s = .ok (false, buffer) s := by
  unfold pop_fifo
  rw [bind_of_ok (get_apply s), if_neg h]
  rfl

/-- With nothing in the FIFO there is no `&fifos[FIFO_MIN][0]`. -/
theorem pop_fifo_empty {s : Jtagd δ} (hempty : s.fifos FIFO_MIN = []) (buffer : List Byte) :
    Faults (pop_fifo buffer 0) s .out_of_bounds := by
  unfold pop_fifo
  rw [Faults, bind_of_ok (get_apply s), if_pos (Nat.zero_le _),
    bind_of_error (first_element_error (by rw [hempty]; decide) s)]
  exact ⟨s, rfl⟩

/-- A failed pop changes nothing. -/
theorem pop_fifo_false {n : Nat} {s t : Jtagd δ} {buffer out : List Byte}
    (h : pop_fifo buffer n s = .ok (false, out) t) : t = s ∧ out = buffer := by
  by_cases hn : n ≤ (s.fifos FIFO_MIN).length
  · unfold pop_fifo at h
    rw [bind_of_ok (get_apply s), if_pos hn] at h
    obtain ⟨_, _, -, h⟩ := bind_eq_ok.mp h
    obtain ⟨_, _, -, h⟩ := bind_eq_ok.mp h
    cases h
  · rw [pop_fifo_fails buffer hn] at h
    cases h
    exact ⟨rfl, rfl⟩

/-! ## No packet for the FIFO -/

/-- Without such packets, the FIFO stays empty, and no pop succeeds. -/
theorem Run.isQueue {s u : Jtagd δ} {acts : List Act} (h : Run s acts u) (hempty : s.fifos FIFO_MIN = [])
    (hnone : ∀ p ∈ packetsOf acts, p.mux ≠ FIFO_MIN) :
    received acts = [] ∧ delivered acts = [] ∧
      ∀ before n ok out after, acts = before ++ .pop n ok out :: after → ok = false ∧ n ≠ 0 := by
  induction h with
  | nil s => exact ⟨rfl, rfl, by simp⟩
  | @packet s t u acts p hrun _ ih =>
    have hmux := hnone p List.mem_cons_self
    have hfifo := handle_packet_fifo p s _ _ hrun
    rw [pushed, if_neg hmux, hempty] at hfifo
    obtain ⟨hreceived, hdelivered, hpops⟩ := ih hfifo fun q hq => hnone q (List.mem_cons_of_mem _ hq)
    refine ⟨by rw [received, if_neg hmux, hreceived]; rfl, hdelivered, ?_⟩
    intro before n ok out after heq
    cases before with
    | nil => cases heq
    | cons act before =>
      rw [List.cons_append, List.cons.injEq] at heq
      exact hpops before n ok out after heq.2
  | @pop s t u acts n ok out hrun _ ih =>
    have hn : n ≠ 0 := by
      rintro rfl
      exact (pop_fifo_empty hempty _).not_ok hrun
    rw [pop_fifo_fails _ (by rw [hempty]; simpa using hn)] at hrun
    cases hrun
    obtain ⟨hreceived, hdelivered, hpops⟩ := ih hempty hnone
    refine ⟨hreceived, by rw [delivered, hdelivered]; rfl, ?_⟩
    intro before m ok' out' after heq
    cases before with
    | nil =>
      cases heq
      exact ⟨rfl, hn⟩
    | cons act before =>
      rw [List.cons_append, List.cons.injEq] at heq
      exact hpops before m ok' out' after heq.2

/-! ## Packets for the FIFO -/

theorem Run.append {s t u : Jtagd δ} {acts acts' : List Act} (h : Run s acts t) (h' : Run t acts' u) :
    Run s (acts ++ acts') u := by
  induction h with
  | nil s => exact h'
  | packet p hrun _ ih => exact .packet p hrun (ih h')
  | pop hrun _ ih => exact .pop hrun (ih h')

theorem received_append (acts acts' : List Act) :
    received (acts ++ acts') = received acts ++ received acts' := by
  induction acts with
  | nil => rfl
  | cons act acts ih =>
    cases act with
    | packet p => rw [List.cons_append, received, received, ih, List.append_assoc]
    | pop n ok out => exact ih

theorem delivered_append (acts acts' : List Act) :
    delivered (acts ++ acts') = delivered acts ++ delivered acts' := by
  induction acts with
  | nil => rfl
  | cons act acts ih =>
    cases act with
    | packet p => exact ih
    | pop n ok out => rw [List.cons_append, delivered, delivered, ih, List.append_assoc]

theorem packetsOf_append (acts acts' : List Act) :
    packetsOf (acts ++ acts') = packetsOf acts ++ packetsOf acts' := by
  induction acts with
  | nil => rfl
  | cons act acts ih =>
    cases act with
    | packet p => rw [List.cons_append, packetsOf, packetsOf, ih, List.cons_append]
    | pop n ok out => exact ih

/-- The packets alone. -/
def arrivals (ps : List Packet) : List Act := ps.map Act.packet

theorem arrivals_facts (ps : List Packet) :
    packetsOf (arrivals ps) = ps ∧ delivered (arrivals ps) = [] := by
  induction ps with
  | nil => exact ⟨rfl, rfl⟩
  | cons p ps ih => exact ⟨congrArg (List.cons p) ih.1, ih.2⟩

theorem run_arrivals {ps : List Packet} {s u : Jtagd δ} (h : Run s (arrivals ps) u) :
    u.fifos FIFO_MIN = s.fifos FIFO_MIN ++ ps.flatMap pushed := by
  induction ps generalizing s with
  | nil =>
    cases h
    simp
  | cons p ps ih =>
    cases h with
    | packet _ hrun htail =>
      rw [ih htail, handle_packet_fifo p s _ _ hrun, List.flatMap_cons, List.append_assoc]

/-- The first such packet leaves two copies of its number in front, at least. -/
theorem pushed_front {ps : List Packet} (h : ∃ p ∈ ps, p.mux = FIFO_MIN) :
    ∃ p ∈ ps, p.mux = FIFO_MIN ∧ ∃ tail, ps.flatMap pushed =
      List.replicate p.sock.buffer_begin (BitVec.ofNat 32 (p.sock.buffer_begin + p.length)) ++ tail := by
  induction ps with
  | nil => simp at h
  | cons p ps ih =>
    by_cases hmux : p.mux = FIFO_MIN
    · refine ⟨p, List.mem_cons_self, hmux, ps.flatMap pushed, ?_⟩
      rw [List.flatMap_cons, pushed, if_pos hmux]
    · obtain ⟨q, hq, hqmux⟩ := h
      rcases List.mem_cons.mp hq with rfl | hq
      · exact absurd hqmux hmux
      · obtain ⟨r, hr, hrmux, tail, heq⟩ := ih ⟨q, hq, hqmux⟩
        refine ⟨r, List.mem_cons_of_mem _ hr, hrmux, tail, ?_⟩
        rw [List.flatMap_cons, pushed, if_neg hmux, heq]
        rfl

theorem body_length (p : Packet) : p.body.length = p.length := by
  have := p.fits
  rw [Packet.body, List.length_take]
  omega

theorem length_le_received {ps : List Packet} {p : Packet} (hp : p ∈ ps) (hmux : p.mux = FIFO_MIN) :
    p.length ≤ (received (arrivals ps)).length := by
  induction ps with
  | nil => cases hp
  | cons q ps ih =>
    have hlen : (received (arrivals (q :: ps))).length =
        (if q.mux = FIFO_MIN then q.body else []).length + (received (arrivals ps)).length := by
      rw [← List.length_append]
      rfl
    rw [hlen]
    rcases List.mem_cons.mp hp with rfl | hp
    · rw [if_pos hmux, body_length]
      omega
    · have := ih hp
      omega

theorem run_pop {n : Nat} {s : Jtagd δ} (hsome : 0 < (s.fifos FIFO_MIN).length)
    (h : n ≤ (s.fifos FIFO_MIN).length) :
    ∃ t, Run s [.pop n true (((s.fifos FIFO_MIN).flatMap le_bytes).take n)] t ∧
      t.fifos FIFO_MIN = (s.fifos FIFO_MIN).drop n :=
  ⟨_, .pop (pop_fifo_ok hsome h) (.nil _), by simp⟩

/-- One number cannot be popped in two ways: bytes are copied from it, and whole numbers are erased. -/
theorem number_bytes_differ {w : BitVec 32} (hpos : 3 ≤ w.toNat) (hle : w.toNat ≤ 8192)
    (h : (w.setWidth 8 : Byte) = (w >>> 8).setWidth 8)
    (hrest : w.toNat ≤ 4 ∨ ((w >>> 16).setWidth 8 : Byte) = (w >>> 8).setWidth 8) : False := by
  have hsecond : (w >>> 8).toNat = w.toNat / 256 := by simp [Nat.shiftRight_eq_div_pow]
  have hthird : (w >>> 16).toNat = w.toNat / 65536 := by simp [Nat.shiftRight_eq_div_pow]
  have hlow := congrArg BitVec.toNat h
  rw [BitVec.toNat_setWidth, BitVec.toNat_setWidth, hsecond] at hlow
  rcases hrest with hsmall | hhigh
  · have hzero : w.toNat / 256 = 0 := by omega
    rw [hzero] at hlow
    omega
  · have hzero : w.toNat / 65536 = 0 := by omega
    have hhigh := congrArg BitVec.toNat hhigh
    rw [BitVec.toNat_setWidth, BitVec.toNat_setWidth, hsecond, hthird, hzero] at hhigh
    omega

section

variable {ps : List Packet} {s u : Jtagd δ}

/-- Pops behind the packets, if the FIFO is a queue whatever the pops. -/
theorem pops_start (hrun : Run s (arrivals ps) u)
    (hqueue : ∀ acts t, Run s acts t → packetsOf acts = ps → IsQueue acts) {pops : List Act} {t : Jtagd δ}
    (hpops : Run u pops t) (hnone : packetsOf pops = []) :
    IsQueue (arrivals ps ++ pops) ∧ delivered pops <+: received (arrivals ps) ++ received pops := by
  obtain ⟨hpackets, hdelivered⟩ := arrivals_facts ps
  have hq := hqueue _ t (hrun.append hpops) (by rw [packetsOf_append, hpackets, hnone, List.append_nil])
  refine ⟨hq, ?_⟩
  have := hq.prefix_
  rwa [delivered_append, hdelivered, received_append] at this

/-- As many pops succeed as there are bytes. -/
theorem fifo_length (hrun : Run s (arrivals ps) u)
    (hqueue : ∀ acts t, Run s acts t → packetsOf acts = ps → IsQueue acts) :
    (u.fifos FIFO_MIN).length = (received (arrivals ps)).length := by
  obtain ⟨hpackets, hdelivered⟩ := arrivals_facts ps
  apply Nat.le_antisymm
  · by_contra hmore
    obtain ⟨t, hpop, -⟩ := run_pop (s := u) (by omega) (Nat.le_refl _)
    have hq := (pops_start hrun hqueue hpop rfl).1
    have hle := (hq.success _ _ _ _ [] rfl).mp rfl
    rw [hdelivered, List.length_nil, Nat.zero_add] at hle
    exact hmore hle
  · by_contra hnot
    have hpop : Run u [.pop (received (arrivals ps)).length false
        (List.replicate (received (arrivals ps)).length 0)] u := .pop (pop_fifo_fails _ hnot) (.nil u)
    have hq := (pops_start hrun hqueue hpop rfl).1
    have := (hq.success _ _ _ _ [] rfl).mpr (by rw [hdelivered]; simp)
    cases this

/-- Two ways to pop the same number of bytes must give the same bytes. -/
theorem pops_agree (hrun : Run s (arrivals ps) u)
    (hqueue : ∀ acts t, Run s acts t → packetsOf acts = ps → IsQueue acts) {m n : Nat}
    (hmore : m < (u.fifos FIFO_MIN).length) (hle : m + n ≤ (u.fifos FIFO_MIN).length) :
    ((u.fifos FIFO_MIN).flatMap le_bytes).take (m + n) =
      ((u.fifos FIFO_MIN).flatMap le_bytes).take m ++
        (((u.fifos FIFO_MIN).drop m).flatMap le_bytes).take n := by
  have hbytes : ∀ F : List (BitVec 32), F.length ≤ (F.flatMap le_bytes).length := by
    intro F
    rw [List.length_flatMap]
    simp [le_bytes]
    omega
  have hsome : 0 < (u.fifos FIFO_MIN).length := Nat.zero_lt_of_lt hmore
  obtain ⟨t, hone, -⟩ := run_pop hsome hle
  obtain ⟨t₁, hfirst, hfifo⟩ := run_pop (n := m) hsome (by omega)
  have hlen₁ : (t₁.fifos FIFO_MIN).length = (u.fifos FIFO_MIN).length - m := by
    rw [hfifo, List.length_drop]
  obtain ⟨t₂, hsecond, -⟩ := run_pop (s := t₁) (n := n) (by omega) (by omega)
  rw [hfifo] at hsecond
  have hwhole := (pops_start hrun hqueue hone rfl).2
  have hparts := (pops_start hrun hqueue (hfirst.append hsecond) rfl).2
  simp only [List.cons_append, List.nil_append, delivered, received, if_true, List.append_nil] at hwhole hparts
  have hlen := hbytes (u.fifos FIFO_MIN)
  have hlen' := hbytes ((u.fifos FIFO_MIN).drop m)
  rw [List.length_drop] at hlen'
  refine List.IsPrefix.eq_of_length (List.prefix_of_prefix_length_le hwhole hparts ?_) ?_
  · simp only [List.length_take, List.length_append]
    omega
  · simp only [List.length_take, List.length_append]
    omega

/-- A packet for the FIFO shows that it is no byte queue. -/
theorem not_queue (hempty : s.fifos FIFO_MIN = []) (hrun : Run s (arrivals ps) u)
    (hsome : ∃ p ∈ ps, p.mux = FIFO_MIN) :
    ¬ ∀ acts t, Run s acts t → packetsOf acts = ps → IsQueue acts := by
  intro hqueue
  have hfifo := run_arrivals hrun
  rw [hempty, List.nil_append] at hfifo
  obtain ⟨p, hp, hmux, tail, hfront⟩ := pushed_front hsome
  have hheader := p.header
  have hpos := p.pos
  have hfits := p.fits
  have hwlen := p.ok.window_length
  have hbound := p.ok.bound
  have horder := p.ok.order
  have hlength := length_le_received hp hmux
  have hcount := fifo_length hrun hqueue
  unfold BUFFER_SIZE at hbound
  obtain ⟨k, hk⟩ : ∃ k, p.sock.buffer_begin = k + 2 := ⟨p.sock.buffer_begin - 2, by omega⟩
  generalize hw : BitVec.ofNat 32 (p.sock.buffer_begin + p.length) = w at hfront
  have hwval : w.toNat = p.sock.buffer_begin + p.length := by
    rw [← hw, BitVec.toNat_ofNat]
    omega
  obtain ⟨more, hcopies⟩ : ∃ more, u.fifos FIFO_MIN = w :: w :: more := by
    refine ⟨List.replicate k w ++ tail, ?_⟩
    rw [hfifo, hfront, hk, List.replicate_succ, List.replicate_succ]
    rfl
  have hbegin : p.sock.buffer_begin ≤ (u.fifos FIFO_MIN).length := by
    rw [hfifo, hfront, List.length_append, List.length_replicate]
    omega
  by_cases hthree : 3 ≤ (u.fifos FIFO_MIN).length
  · have hagree := pops_agree hrun hqueue (m := 1) (n := 2) (by omega) hthree
    rw [hcopies] at hagree
    simp [le_bytes] at hagree
    exact number_bytes_differ (w := w) (by omega) (by omega) hagree.1.symm (Or.inr hagree.2)
  · have htwo : 1 + 1 ≤ (u.fifos FIFO_MIN).length := by
      rw [hcopies]
      simp
    have hagree := pops_agree hrun hqueue (by omega) htwo
    rw [hcopies] at hagree
    simp [le_bytes] at hagree
    exact number_bytes_differ (w := w) (by omega) (by omega) hagree.symm (Or.inl (by omega))

end

/-- Whatever is popped between the packets: the FIFO is a byte queue just if no packet is for it. A
pop that fails changes nothing. -/
theorem fifo_queue_iff {ps : List Packet} {s u : Jtagd δ} (hempty : s.fifos FIFO_MIN = [])
    (hrun : Run s (arrivals ps) u) :
    ((∀ acts t, Run s acts t → packetsOf acts = ps → IsQueue acts) ∧
      ∀ (s t : Jtagd δ) buffer n out, pop_fifo buffer n s = .ok (false, out) t → t = s ∧ out = buffer) ↔
      ∀ p ∈ ps, p.mux ≠ FIFO_MIN := by
  constructor
  · rintro ⟨hqueue, -⟩ p hp hmux
    exact not_queue hempty hrun ⟨p, hp, hmux⟩ hqueue
  · intro hnone
    refine ⟨?_, fun _ _ _ _ _ h => pop_fifo_false h⟩
    intro acts t hacts hpackets
    rw [← hpackets] at hnone
    obtain ⟨hreceived, hdelivered, hpops⟩ := hacts.isQueue hempty hnone
    refine ⟨by rw [hdelivered]; exact List.nil_prefix, ?_⟩
    intro before n ok out after heq
    have hbefore : received before = [] ∧ delivered before = [] := by
      rw [heq, received_append] at hreceived
      rw [heq, delivered_append] at hdelivered
      exact ⟨(List.append_eq_nil_iff.mp hreceived).1, (List.append_eq_nil_iff.mp hdelivered).1⟩
    obtain ⟨hfailed, hn⟩ := hpops before n ok out after heq
    rw [hfailed, hbefore.1, hbefore.2]
    simpa using hn

/-! ## One byte -/

def freshJtagd (c : Jtag δ) : Jtagd δ where
  jtag := c
  sock := freshSock
  send_buffer := List.replicate BUFFER_SIZE 0
  send_buffer_size := 2
  last_response := -1
  devices := []
  messages := []
  fifos := fun _ => []

/-- The byte 01 for the FIFO, in the first packet of a connection. -/
def oneByte : Packet where
  sock := ⟨4, [0x40, 0x00, 0x01] ++ List.replicate 4093 0, 2, 3, true, []⟩
  mux := 4
  length := 1
  ok := ⟨by rw [List.length_append, List.length_replicate]; rfl, by decide, by decide⟩
  header := Nat.le_refl 2
  pos := Nat.le_refl 1
  fits := by decide

theorem oneByte_run (c : Jtag δ) : ∃ u, Run (freshJtagd c) (arrivals [oneByte]) u ∧
    u.fifos FIFO_MIN = [3, 3] := by
  have hrun : Run (freshJtagd c) (arrivals [oneByte]) _ := .packet oneByte rfl (.nil _)
  refine ⟨_, hrun, ?_⟩
  rw [run_arrivals hrun]
  rfl

theorem fifo_queue_iff_one : ∃ u, Run (freshJtagd (⟨.RunTestIdle, 0, ()⟩ : Jtag Unit)) (arrivals [oneByte]) u ∧
    (((∀ acts t, Run (freshJtagd ⟨.RunTestIdle, 0, ()⟩) acts t → packetsOf acts = [oneByte] → IsQueue acts) ∧
      ∀ (s t : Jtagd Unit) buffer n out, pop_fifo buffer n s = .ok (false, out) t → t = s ∧ out = buffer) ↔
      ∀ p ∈ [oneByte], p.mux ≠ FIFO_MIN) := by
  obtain ⟨u, hrun, -⟩ := oneByte_run (⟨.RunTestIdle, 0, ()⟩ : Jtag Unit)
  exact ⟨u, hrun, fifo_queue_iff rfl hrun⟩

/-- One byte comes in, and two others come out. -/
theorem fifo_makes_up_bytes : ∃ u, Run (freshJtagd (⟨.RunTestIdle, 0, ()⟩ : Jtag Unit))
      [.packet oneByte, .pop 2 true [0x03, 0x00]] u ∧
    received [.packet oneByte, .pop 2 true [0x03, 0x00]] = [0x01] ∧
    ¬ IsQueue [.packet oneByte, .pop 2 true [0x03, 0x00]] := by
  obtain ⟨t, hrun, hfifo⟩ := oneByte_run (⟨.RunTestIdle, 0, ()⟩ : Jtag Unit)
  obtain ⟨u, hpop, -⟩ := run_pop (s := t) (n := 2) (by rw [hfifo]; decide) (by rw [hfifo]; decide)
  have hbytes : ((t.fifos FIFO_MIN).flatMap le_bytes).take 2 = [0x03, 0x00] := by
    rw [hfifo]
    decide
  rw [hbytes] at hpop
  refine ⟨u, hrun.append hpop, rfl, ?_⟩
  intro hqueue
  have hprefix := hqueue.prefix_.length_le
  exact absurd hprefix (by decide)

end JtagRemote.Jtagd
